import Nanoreth.PseudoPeer.Service

/-!
# Bodies by their positions

Which bodies the pseudo peer sends. The one who asked for them matches them to the hashes by their
positions: the bodies should be those of the first hashes of the request, in order.

The hashes that are not resolved are left out, and the bodies of the others are sent in order. So
they are in the right positions if no hash that is resolved follows one that is not; and as a batch
with a repeated block is not answered, if no hash is repeated. If blocks have different bodies,
then only if (`blockBodies_iff`).
-/

namespace Nanoreth

open Lru Partial Transition

variable {ε : Type}

/-- What a store knows is true of a chain: its blocks, its index and its database. -/
structure SourceChain.IsTrue (chain : SourceChain) (store : BlockStore) : Prop where
  keeps : store.Keeps chain.IsBlock
  indexed : chain.Indexed store
  db : ∀ lookup ∈ store.dbBlockNumber, ∀ hash n, lookup hash = some n →
    hash = (chain.block n).hash

/-- What a store is supplied with by a chain stays true of it. -/
theorem SourceChain.IsTrue.reachable {chain : SourceChain} {store₀ store : BlockStore}
    (h₀ : chain.IsTrue store₀)
    (h : Reachable (storeSystem (ε := ε) store₀
      (StoreEvent.Supplies chain.IsBlock store₀.gapBlocks)) store) : chain.IsTrue store := by
  obtain ⟨hkeeps, -, hdb⟩ := keeps_of_reachable h₀.keeps h
  exact ⟨hkeeps, indexed_of_reachable h₀.keeps h₀.indexed h, hdb ▸ h₀.db⟩

/-- The hashes that are resolved. -/
def BlockStore.knownHashes (store : BlockStore) (hashes : List B256) : List B256 :=
  hashes.filter fun hash => (store.hashToNumber hash).toOption.isSome

namespace PseudoPeer

/-- A block is converted, whatever spot assets are known. -/
def Converts (peer : PseudoPeer ε) (block : BlockAndReceipts) : Prop :=
  ∀ spotCache, ∃ r, peer.toRethBlock block spotCache = .ok r

/-- A body is that of the block with a hash. -/
def IsBody (peer : PseudoPeer ε) (chain : SourceChain) (hash : B256) (body : HlBlockBody) : Prop :=
  ∃ n, (chain.block n).hash = hash ∧ ∃ spotCache spotCache' block,
    peer.toRethBlock (chain.block n) spotCache = .ok (block, spotCache') ∧ block.body = body

/-- The bodies are those of the first hashes of a request, in order. -/
def AnswersFirst (peer : PseudoPeer ε) (chain : SourceChain) (hashes : List B256)
    (bodies : List HlBlockBody) : Prop :=
  ∃ answered, answered <+: hashes ∧ List.Forall₂ (peer.IsBody chain) answered bodies

variable {peer : PseudoPeer ε} {chain : SourceChain} {store : BlockStore} {hashes : List B256}

/-- The hashes of the numbers that are known are those hashes. -/
theorem map_hash_knownNumbers (hstore : chain.IsTrue store) (hashes : List B256) :
    (store.knownNumbers hashes).map (fun n => (chain.block n).hash) = store.knownHashes hashes := by
  rw [BlockStore.knownNumbers, BlockStore.knownHashes, List.map_filterMap,
    ← List.filterMap_eq_filter]
  refine List.filterMap_congr fun hash _ => ?_
  cases hnumber : store.hashToNumber hash with
  | error e => simp [Option.guard, hnumber, Except.toOption]
  | ok n =>
    have hhash := SourceChain.hash_of_hashToNumber hstore.indexed hstore.db hnumber
    simp [Option.guard, hnumber, Except.toOption, ← hhash]

/-- Different hashes are those of different blocks. -/
theorem nodup_knownNumbers_iff (hstore : chain.IsTrue store) :
    (store.knownNumbers hashes).Nodup ↔ (store.knownHashes hashes).Nodup := by
  rw [← map_hash_knownNumbers hstore]
  exact (List.nodup_map_iff fun m n => chain.hash_injective m n).symm

theorem mem_knownNumbers {n : UInt64} (h : n ∈ store.knownNumbers hashes) :
    ∃ hash ∈ hashes, store.hashToNumber hash = .ok n := by
  obtain ⟨hash, hmem, hn⟩ := List.mem_filterMap.1 h
  refine ⟨hash, hmem, ?_⟩
  cases hnumber : store.hashToNumber hash with
  | error e =>
    rw [hnumber] at hn
    cases hn
  | ok m =>
    rw [hnumber] at hn
    cases hn
    rfl

/-- The bodies are those of the requested blocks, in order. -/
theorem forall₂_isBody {numbers : List UInt64} {hlBlocks : List HlBlock}
    {spotCache spotCache' : SpotCache}
    (h : (numbers.map chain.block).mapM peer.toRethBlock spotCache = .ok (hlBlocks, spotCache')) :
    List.Forall₂ (peer.IsBody chain) (numbers.map fun n => (chain.block n).hash)
      (hlBlocks.map (·.body)) := by
  have hresults := List.forall₂_map_left_iff.1 (forall₂_of_mapM h)
  rw [List.forall₂_map_left_iff, List.forall₂_map_right_iff]
  refine hresults.imp fun n block hblock => ?_
  obtain ⟨spotCache₁, spotCache₂, hblock⟩ := hblock
  exact ⟨n, rfl, spotCache₁, spotCache₂, block, hblock, rfl⟩

/-- The response to a request for bodies, given that the blocks of the hashes that are resolved
    can be fetched and converted. It is sent if no such hash is repeated, and has their bodies in
    order. -/
theorem blockBodies_cases (hstore : chain.IsTrue store) (hsource : peer.source.CollectsAll)
    (hoffers : ∀ hash ∈ hashes, ∀ n, store.hashToNumber hash = .ok n →
      store.Offers peer.source n (chain.block n))
    (hconverts : ∀ hash ∈ hashes, ∀ n, store.hashToNumber hash = .ok n →
      peer.Converts (chain.block n)) (spotCache : SpotCache) :
    ((store.knownHashes hashes).Nodup → ∃ bodies,
      (peer.processEthRequest store spotCache (.getBlockBodies hashes)).responses =
        [.blockBodies bodies]) ∧
    ∀ bodies, (peer.processEthRequest store spotCache (.getBlockBodies hashes)).responses =
        [.blockBodies bodies] → (store.knownHashes hashes).Nodup ∧
      List.Forall₂ (peer.IsBody chain) (store.knownHashes hashes) bodies := by
  have hbatch : ∀ blocks,
      (store.getByNumbers peer.source peer.iteration (store.knownNumbers hashes)).1 = .ok blocks ↔
        (store.knownNumbers hashes).Nodup ∧
          blocks = (store.knownNumbers hashes).map chain.block := by
    refine fun _ => SourceChain.getByNumbers_iff hstore.keeps hsource fun n hn => ?_
    obtain ⟨hash, hmem, hnumber⟩ := mem_knownNumbers hn
    exact hoffers hash hmem n hnumber
  simp only [processEthRequest, responses_eq_singleton_iff, hbatch, nodup_knownNumbers_iff hstore]
  constructor
  · intro hnodup
    have hconverted : ∀ block ∈ (store.knownNumbers hashes).map chain.block,
        peer.Converts block := by
      intro block hblock
      obtain ⟨n, hn, rfl⟩ := List.mem_map.1 hblock
      obtain ⟨hash, hmem, hnumber⟩ := mem_knownNumbers hn
      exact hconverts hash hmem n hnumber
    obtain ⟨hlBlocks, spotCache', hblocks⟩ := exists_mapM hconverted spotCache
    exact ⟨_, _, hlBlocks, spotCache', ⟨hnodup, rfl⟩, hblocks, rfl⟩
  · rintro bodies ⟨blocks, hlBlocks, spotCache', ⟨hnodup, rfl⟩, hblocks, heq⟩
    cases heq
    -- The bodies are in the order of the numbers, which is that of their hashes.
    refine ⟨hnodup, ?_⟩
    rw [← map_hash_knownNumbers hstore]
    exact forall₂_isBody hblocks

/-- Bodies are answered by their positions if the hashes that are resolved are distinct and are the
    first ones of the request. If they are answered so, then the hashes that are resolved are
    distinct, and if all blocks have different bodies, they are the first ones. -/
theorem blockBodies_iff (peer : PseudoPeer ε) (chain : SourceChain) (store : BlockStore)
    (spotCache : SpotCache) (hashes : List B256) (hstore : chain.IsTrue store)
    (hsource : peer.source.CollectsAll)
    (hoffers : ∀ hash ∈ hashes, ∀ n, store.hashToNumber hash = .ok n →
      store.Offers peer.source n (chain.block n))
    (hconverts : ∀ hash ∈ hashes, ∀ n, store.hashToNumber hash = .ok n →
      peer.Converts (chain.block n)) :
    let known := store.knownHashes hashes
    let positional := ∃ bodies,
      (peer.processEthRequest store spotCache (.getBlockBodies hashes)).responses =
        [.blockBodies bodies] ∧ peer.AnswersFirst chain hashes bodies
    (known.Nodup ∧ known <+: hashes → positional) ∧
      (positional → known.Nodup ∧ (Relator.LeftUnique (peer.IsBody chain) → known <+: hashes)) := by
  obtain ⟨hsent, hbodies⟩ := blockBodies_cases hstore hsource hoffers hconverts spotCache
  constructor
  · rintro ⟨hnodup, hfirst⟩
    obtain ⟨bodies, hresponses⟩ := hsent hnodup
    exact ⟨bodies, hresponses, _, hfirst, (hbodies bodies hresponses).2⟩
  · rintro ⟨bodies, hresponses, answered, hfirst, hanswered⟩
    obtain ⟨hnodup, hknown⟩ := hbodies bodies hresponses
    refine ⟨hnodup, fun hunique => ?_⟩
    -- The bodies are those of `answered` and of the hashes that are resolved.
    rwa [List.left_unique_forall₂' hunique hknown hanswered]

/-! ### A chain with different bodies -/

/-- A block with its number in its body. -/
def markedBlock (n : UInt64) : BlockAndReceipts :=
  { countingBlock n with highestPrecompileAddress := some (BitVec.ofNat 160 n.toNat) }

/-- The chain of these blocks. -/
def markedChain : SourceChain where
  block := markedBlock
  number_block _ := rfl
  parentHash_block := countingChain.parentHash_block
  hash_injective := countingChain.hash_injective

/-- A peer with the source of these blocks. -/
def markedPeer : PseudoPeer Empty where
  chainId := mainnetChainId
  source := ⟨fun n => .ok (markedBlock n), fun heights => .ok (heights.map markedBlock)⟩
  iteration := listedOrder
  spotEnv := noTokens
  fuel := 0
  crypto := transferCrypto

/-- A store that has fetched block 6. The hashes of blocks 6 and 5 are indexed. -/
def markedStore : BlockStore :=
  (BlockStore.getByNumber markedPeer.source (.new none [] mainnetChainId) 6).2

/-- The body of such a block. -/
def markedBody (n : UInt64) : HlBlockBody where
  inner := ⟨[], [], some []⟩
  sidecars := none
  readPrecompileCalls := some []
  highestPrecompileAddress := some (BitVec.ofNat 160 n.toNat)

/-- A body is marked with the number of its block. -/
theorem isBody_marked {n : UInt64} {body : HlBlockBody}
    (h : markedPeer.IsBody markedChain (markedBlock n).hash body) : body = markedBody n := by
  obtain ⟨m, hhash, spotCache, spotCache', block, hblock, rfl⟩ := h
  obtain rfl := markedChain.hash_injective m n hhash
  cases hblock
  rfl

/-- The bodies of blocks 6 and 5 are sent, and none for a hash that is not resolved after them. -/
theorem blockBodies_iff_marked : ∃ bodies,
    (markedPeer.processEthRequest markedStore emptyCache (.getBlockBodies [6, 5, 9])).responses =
        [.blockBodies bodies] ∧
      markedPeer.AnswersFirst markedChain [6, 5, 9] bodies := by
  have hstore₀ : markedChain.IsTrue (.new none [] mainnetChainId) :=
    ⟨⟨fun _ h => absurd h List.not_mem_nil, fun _ _ h => by cases h⟩,
      SourceChain.indexed_ofLimits _ _ _ _ _, fun _ h => by cases h⟩
  have hstore : markedChain.IsTrue markedStore := by
    refine hstore₀.reachable (ε := Empty) ((Reachable.init rfl).step
      (l := .call (.getByNumber markedPeer.source 6)) ⟨fun block _ hblock => ?_, rfl⟩)
    exact (Except.ok.inj hblock).symm
  have hsource : markedPeer.source.CollectsAll := fun heights blocks hblocks =>
    hblocks ▸ (mapM_eq_ok fun _ _ => rfl).symm
  refine (blockBodies_iff markedPeer markedChain markedStore emptyCache [6, 5, 9] hstore hsource
    ?_ ?_).1 ⟨?_, ?_⟩
  · exact fun _ _ n _ => .inr ⟨rfl, rfl, rfl⟩
  · exact fun _ _ n _ spotCache => ⟨_, rfl⟩
  · exact (by decide : [(6 : B256), 5].Nodup)
  · exact ⟨[9], rfl⟩

/-- The hash of block 9 is not resolved, and the body of block 5 is sent in its place. If a hash is
    repeated, no bodies are sent. -/
theorem blockBodies_shifted :
    (markedPeer.processEthRequest markedStore emptyCache (.getBlockBodies [9, 5])).responses =
        [.blockBodies [markedBody 5]] ∧
      ¬markedPeer.AnswersFirst markedChain [9, 5] [markedBody 5] ∧
    (markedPeer.processEthRequest markedStore emptyCache (.getBlockBodies [5, 5])).responses =
      [] := by
  refine ⟨rfl, ?_, rfl⟩
  rintro ⟨answered, ⟨rest, hfirst⟩, hanswered⟩
  obtain ⟨hash, _, hbody, hnil, rfl⟩ := List.forall₂_cons_right_iff.1 hanswered
  cases List.forall₂_nil_right_iff.1 hnil
  obtain rfl : hash = 9 := (List.cons.inj hfirst).1
  have haddress := congrArg HlBlockBody.highestPrecompileAddress (isBody_marked (n := 9) hbody)
  exact absurd haddress (by decide)

end PseudoPeer

end Nanoreth
