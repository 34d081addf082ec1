import Nanoreth.Lib.Buffered
import Nanoreth.Lib.Cut
import Nanoreth.Lib.Partial
import Nanoreth.Lib.Rlp
import Nanoreth.Types.RethCompat

/-!
# Block sources

Where the pseudo peer takes its blocks from (`pseudo_peer/sources`). A source fetches single
blocks by their heights, and several ones at once, concurrently:

* by default, through a buffered stream of single fetches;
* from S3, in batches of spawned tasks that are awaited in turn;
* from another node, by requests of up to 500 heights to its sync server
  (`addons/sync_server.rs`), which silently drops what exceeds 500 heights.

Whichever order the fetches complete in, a batch is what its single fetches give (`Agrees`): one
block for each height, in the order asked, if they all succeed, and otherwise an error.
-/

namespace Nanoreth

open Cut Partial Transition

/-- The result of fetching several heights is that of fetching each of them by `f`. -/
structure Agrees {ε ε' B : Type} (f : UInt64 → Except ε B) (heights : List UInt64)
    (result : Except ε' (List B)) : Prop where
  ok : ∀ blocks, List.Forall₂ (fun height block => f height = .ok block) heights blocks →
    result = .ok blocks
  error : (∃ height ∈ heights, ∃ error, f height = .error error) → ∃ error, result = .error error

/-- The kinds of sources. A source that reads the files of a node falls back to another one. -/
inductive SourceKind
  | s3
  | localFiles
  | rpc
  | hlNode (fallback : SourceKind)

/-- How many blocks a source is best asked for at once. -/
def SourceKind.recommendedChunkSize : SourceKind → ℕ
  | .s3 => 1000
  | .localFiles => 1000
  | .rpc => 200
  | .hlNode fallback => fallback.recommendedChunkSize

theorem SourceKind.recommendedChunkSize_pos (kind : SourceKind) :
    0 < kind.recommendedChunkSize := by
  induction kind with
  | s3 => decide
  | localFiles => decide
  | rpc => decide
  | hlNode fallback ih => exact ih

/-! ## Buffered and batched fetches -/

section Concurrent

variable {ε B : Type}

/-- The stream of single fetches that blocks are collected from by default. -/
def collectBlocks (kind : SourceKind) (collectBlock : UInt64 → Except ε B)
    (heights : List UInt64) :
    System (Buffered.State UInt64 (Except ε B)) Buffered.Label :=
  Buffered.system kind.recommendedChunkSize collectBlock heights

/-- The results of the stream as one: the blocks, or the first error. -/
def collectResults (results : List (Except ε B)) : Except ε (List B) :=
  results.mapM id

/-- The loop over batches of tasks that blocks are collected by from S3. -/
def s3CollectBlocks (collectBlock : UInt64 → Except ε B) (heights : List UInt64) :
    System (Batched.State UInt64 B ε) Batched.Label :=
  Batched.system SourceKind.s3.recommendedChunkSize collectBlock heights

/-- Requests one after the other agree with single ones. -/
theorem agrees_mapM (collectBlock : UInt64 → Except ε B) (heights : List UInt64) :
    Agrees collectBlock heights (heights.mapM collectBlock) := by
  induction heights with
  | nil =>
    refine ⟨fun blocks h => ?_, fun ⟨_, h, _⟩ => absurd h List.not_mem_nil⟩
    cases h
    rfl
  | cons height heights ih =>
    rw [List.mapM_cons]
    constructor
    · rintro _ (_ | ⟨hblock, hblocks⟩)
      rw [hblock, ih.ok _ hblocks]
      rfl
    · rintro ⟨height', hmem, error, herror⟩
      cases hblock : collectBlock height with
      | error error => exact ⟨error, rfl⟩
      | ok block =>
        rcases List.mem_cons.1 hmem with rfl | hmem
        · exact absurd (hblock.symm.trans herror) nofun
        · obtain ⟨error, herror⟩ := ih.error ⟨height', hmem, error, herror⟩
          exact ⟨error, by rw [herror]; rfl⟩

/-- The results for two lists of heights, one after the other. -/
theorem Agrees.append {ε' : Type} {f : UInt64 → Except ε B} {heights heights' : List UInt64}
    {result result' : Except ε' (List B)} (h : Agrees f heights result)
    (h' : Agrees f heights' result') :
    Agrees f (heights ++ heights')
      (do let blocks ← result; let blocks' ← result'; return blocks ++ blocks') where
  ok blocks hblocks := by
    have htake := List.forall₂_take_append _ _ _ hblocks.flip
    have hdrop := List.forall₂_drop_append _ _ _ hblocks.flip
    rw [h.ok _ htake.flip, h'.ok _ hdrop.flip]
    exact congrArg Except.ok (List.take_append_drop _ _)
  error := by
    rintro ⟨height, hmem, herror⟩
    rcases List.mem_append.1 hmem with hmem | hmem
    · obtain ⟨error, rfl⟩ := h.error ⟨height, hmem, herror⟩
      exact ⟨error, rfl⟩
    · obtain ⟨error, rfl⟩ := h'.error ⟨height, hmem, herror⟩
      cases result with
      | error error' => exact ⟨error', rfl⟩
      | ok blocks => exact ⟨error, rfl⟩

/-- Collecting the results is making the requests one after the other. -/
theorem collectResults_map (collectBlock : UInt64 → Except ε B) (heights : List UInt64) :
    collectResults (heights.map collectBlock) = heights.mapM collectBlock := by
  rw [collectResults, List.mapM_map]
  rfl

end Concurrent

/-! ## Sync server -/

/-- Reads blocks of a database, with the message of the error. -/
abbrev SyncBlockReader := UInt64 → Except String BlockAndReceipts

/-- The provider of the node that serves blocks. -/
structure SyncProvider where
  blockByNumber : UInt64 → Except String (Option HlBlock)
  receiptsByBlock : UInt64 → Except String (Option (List EthereumReceipt))

/-- Reads the blocks of the database of the node. -/
def SyncProvider.readBlockAndReceipts (C : Crypto) (provider : SyncProvider) : SyncBlockReader :=
  fun number => do
    match ← provider.blockByNumber number with
    | none => .error s!"Block {number} not found in database"
    | some block =>
      match ← provider.receiptsByBlock number with
      | none => .error s!"Receipts for block {number} not found in database"
      | some receipts => .ok (BlockAndReceipts.fromDb C block receipts)

/-- The encoding of lists of blocks, by MessagePack and LZ4. -/
structure BlocksCodec where
  encode : List BlockAndReceipts → Bytes
  decode : Bytes → Except String (List BlockAndReceipts)
  decode_encode : ∀ blocks, decode (encode blocks) = .ok blocks

/-- A sync server, which has no reader until the node is set up. -/
structure HlSyncServer where
  codec : BlocksCodec
  reader : Option SyncBlockReader

namespace HlSyncServer

variable (server : HlSyncServer)

/-- The reader, which is set when the node has started. -/
def getSyncDbReader : Except String SyncBlockReader :=
  match server.reader with
  | some reader => .ok reader
  | none => .error "Sync server not yet initialized"

/-- `hl_syncGetBlock`. -/
def syncGetBlock (height : UInt64) : Except String Bytes := do
  let reader ← server.getSyncDbReader
  match reader height with
  | .ok block => .ok (server.codec.encode [block])
  | .error e => .error s!"Failed to read block {height}: {e}"

/-- How many blocks are served at once. -/
def maxBatch : ℕ := 500

/-- `hl_syncGetBlocks`. Heights that are too many are left out. -/
def syncGetBlocks (heights : List UInt64) : Except String Bytes := do
  let heights := if maxBatch < heights.length then heights.take maxBatch else heights
  let reader ← server.getSyncDbReader
  match heights.mapM reader with
  | .ok blocks => .ok (server.codec.encode blocks)
  | .error e => .error s!"Failed to read blocks: {e}"

end HlSyncServer

/-! ## Sync client -/

/-- Why fetching blocks from a sync server fails. -/
inductive RpcSourceError
  | request (message : String)
  | decode (message : String)
  | panic (halt : Halt)

/-- A source that is connected to a sync server. -/
structure RpcBlockSource where
  server : HlSyncServer

namespace RpcBlockSource

variable (source : RpcBlockSource)

/-- The first block that the server answers with. If there is none, the node panics. -/
def collectBlock (height : UInt64) : Except RpcSourceError BlockAndReceipts := do
  let bytes ← (source.server.syncGetBlock height).mapError .request
  match ← (source.server.codec.decode bytes).mapError .decode with
  | block :: _ => .ok block
  | [] => .error (.panic (.panic "index out of bounds: the len is 0 but the index is 0"))

/-- How many blocks are asked for at once. -/
def batchSize : ℕ := 500

/-- How many requests are made at the same time. -/
def maxConcurrentBatches : ℕ := 20

/-- A request for a batch of heights. -/
def requestBatch (batch : List UInt64) : Except RpcSourceError (List BlockAndReceipts) := do
  let bytes ← (source.server.syncGetBlocks batch).mapError .request
  (source.server.codec.decode bytes).mapError .decode

/-- The stream of the requests for the batches of heights. -/
def collectBlocks (heights : List UInt64) :
    System (Buffered.State (List UInt64) (Except RpcSourceError (List BlockAndReceipts)))
      Buffered.Label :=
  Buffered.system maxConcurrentBatches source.requestBatch (chunks batchSize heights)

/-- The replies to all requests as one: their blocks, or the first error. -/
def collectReplies (replies : List (Except RpcSourceError (List BlockAndReceipts))) :
    Except RpcSourceError (List BlockAndReceipts) :=
  replies.foldlM (fun blocks reply => do return blocks ++ (← reply)) []

variable {source}

/-- The server answers from its reader. -/
theorem collectBlock_of_reader {reader : SyncBlockReader} (h : source.server.reader = some reader)
    (height : UInt64) :
    source.collectBlock height = (reader height).mapError fun e =>
      .request s!"Failed to read block {height}: {e}" := by
  rw [collectBlock, HlSyncServer.syncGetBlock, HlSyncServer.getSyncDbReader, h]
  change ((match reader height with
    | .ok block => Except.ok (source.server.codec.encode [block])
    | .error e => .error s!"Failed to read block {height}: {e}").mapError _ >>= _) = _
  cases reader height with
  | error e => rfl
  | ok block =>
    change ((source.server.codec.decode (source.server.codec.encode [block])).mapError _ >>= _) = _
    rw [source.server.codec.decode_encode]
    rfl

/-- A batch that the server does not truncate. -/
theorem requestBatch_of_reader {reader : SyncBlockReader} (h : source.server.reader = some reader)
    {batch : List UInt64} (hbatch : batch.length ≤ batchSize) :
    source.requestBatch batch = (batch.mapM reader).mapError fun e =>
      .request s!"Failed to read blocks: {e}" := by
  rw [requestBatch, HlSyncServer.syncGetBlocks, HlSyncServer.getSyncDbReader, h]
  simp only [if_neg (Nat.not_lt.2 (show batch.length ≤ HlSyncServer.maxBatch from hbatch))]
  change ((match batch.mapM reader with
    | .ok blocks => Except.ok (source.server.codec.encode blocks)
    | .error e => .error s!"Failed to read blocks: {e}").mapError _ >>= _) = _
  cases batch.mapM reader with
  | error e => rfl
  | ok blocks =>
    change (source.server.codec.decode (source.server.codec.encode blocks)).mapError _ = _
    rw [source.server.codec.decode_encode]
    rfl

/-- A server without a reader answers no request. -/
theorem requestBatch_of_no_reader (h : source.server.reader = none) (batch : List UInt64) :
    ∃ error, source.requestBatch batch = .error error := by
  refine ⟨.request "Sync server not yet initialized", ?_⟩
  rw [requestBatch, HlSyncServer.syncGetBlocks, HlSyncServer.getSyncDbReader, h]
  rfl

/-- The server fails without a reader. -/
theorem collectBlock_of_no_reader (h : source.server.reader = none) (height : UInt64) :
    ∃ error, source.collectBlock height = .error error := by
  refine ⟨.request "Sync server not yet initialized", ?_⟩
  rw [collectBlock, HlSyncServer.syncGetBlock, HlSyncServer.getSyncDbReader, h]
  rfl

/-- A request for a batch is what requests for its heights give. -/
theorem agrees_requestBatch {batch : List UInt64} (hne : batch ≠ [])
    (hbatch : batch.length ≤ batchSize) :
    Agrees source.collectBlock batch (source.requestBatch batch) := by
  cases hreader : source.server.reader with
  | none =>
    obtain ⟨error, herror⟩ := requestBatch_of_no_reader hreader batch
    -- A batch that is not empty has a first height, which fails as well.
    obtain ⟨height, heights, rfl⟩ := List.exists_cons_of_ne_nil hne
    obtain ⟨error', herror'⟩ := collectBlock_of_no_reader hreader height
    refine ⟨?_, fun _ => ⟨error, herror⟩⟩
    rintro _ (_ | ⟨hblock, _⟩)
    exact absurd (herror'.symm.trans hblock) nofun
  | some reader =>
    have h := agrees_mapM reader batch
    rw [requestBatch_of_reader hreader hbatch]
    constructor
    · intro blocks hblocks
      rw [h.ok blocks (hblocks.imp fun height block hblock => ?_)]
      · rfl
      · rw [collectBlock_of_reader hreader] at hblock
        exact mapError_eq_ok.1 hblock
    · rintro ⟨height, hmem, error, herror⟩
      rw [collectBlock_of_reader hreader] at herror
      cases hread : reader height with
      | ok block => rw [hread] at herror; cases herror
      | error e =>
        obtain ⟨error, herror⟩ := h.error ⟨height, hmem, e, hread⟩
        exact ⟨_, by rw [herror]; rfl⟩

/-- The replies are joined in order. -/
theorem collectReplies_cons (reply : Except RpcSourceError (List BlockAndReceipts))
    (replies : List (Except RpcSourceError (List BlockAndReceipts))) :
    collectReplies (reply :: replies) =
      do let blocks ← reply; let blocks' ← collectReplies replies; return blocks ++ blocks' := by
  -- What is collected first is a prefix of the result.
  have hfold : ∀ (replies : List (Except RpcSourceError (List BlockAndReceipts))) blocks,
      replies.foldlM (fun blocks reply => do return blocks ++ (← reply)) blocks =
        (blocks ++ ·) <$> collectReplies replies := by
    intro replies
    induction replies with
    | nil => exact fun blocks => congrArg Except.ok (List.append_nil blocks).symm
    | cons reply replies ih =>
      intro blocks
      cases reply with
      | error e => rfl
      | ok reply =>
        rw [collectReplies]
        change replies.foldlM _ (blocks ++ reply) =
          (blocks ++ ·) <$> replies.foldlM _ ([] ++ reply)
        rw [ih, ih, List.nil_append]
        cases collectReplies replies with
        | error e => rfl
        | ok rest => exact congrArg Except.ok (List.append_assoc _ _ _)
  cases reply with
  | error e => rfl
  | ok blocks =>
    refine (hfold replies _).trans ?_
    cases collectReplies replies <;> rfl

/-- The replies to requests agree if each of them does. -/
theorem agrees_collectReplies {batches : List (List UInt64)}
    (h : ∀ batch ∈ batches, Agrees source.collectBlock batch (source.requestBatch batch)) :
    Agrees source.collectBlock batches.flatten
      (collectReplies (batches.map source.requestBatch)) := by
  induction batches with
  | nil => exact agrees_mapM source.collectBlock []
  | cons batch batches ih =>
    rw [List.forall_mem_cons] at h
    rw [List.map_cons, collectReplies_cons]
    exact h.1.append (ih h.2)

/-- The batches of a list of heights are small enough for the server. -/
theorem agrees_chunks (heights : List UInt64) :
    Agrees source.collectBlock heights
      (collectReplies ((chunks batchSize heights).map source.requestBatch)) := by
  have hsize : 0 < batchSize := by decide
  have h : ∀ batch ∈ chunks batchSize heights,
      Agrees source.collectBlock batch (source.requestBatch batch) := by
    intro batch hbatch
    obtain ⟨hlength, hne⟩ := of_mem_chunks hsize hbatch
    exact agrees_requestBatch hne hlength
  have hreplies := agrees_collectReplies h
  rwa [flatten_chunks hsize heights] at hreplies

end RpcBlockSource

/-- However the fetches of a batch are interleaved, they come to an end, and the blocks collected
    are those of the single fetches: by default, from S3, and from a sync server. -/
theorem collectBlocks_agree {ε B : Type} (kind : SourceKind) (collectBlock : UInt64 → Except ε B)
    (source : RpcBlockSource) (heights : List UInt64) :
    ((collectBlocks kind collectBlock heights).Ends fun s => s.waiting = [] ∧ s.queue = [] ∧
      Agrees collectBlock heights (collectResults s.output)) ∧
    ((s3CollectBlocks collectBlock heights).Ends fun s => ∃ result,
      s.returned = some result ∧ Agrees collectBlock heights result) ∧
    ((source.collectBlocks heights).Ends fun s => s.waiting = [] ∧ s.queue = [] ∧
      Agrees source.collectBlock heights (RpcBlockSource.collectReplies s.output)) := by
  refine ⟨?_, ?_, ?_⟩
  · refine (Buffered.ends kind.recommendedChunkSize_pos).mono ?_
    rintro s ⟨hwaiting, hqueue, houtput⟩
    rw [houtput, collectResults_map]
    exact ⟨hwaiting, hqueue, agrees_mapM collectBlock heights⟩
  · refine (Batched.ends SourceKind.s3.recommendedChunkSize_pos).mono fun s hs => ?_
    exact ⟨_, hs, agrees_mapM collectBlock heights⟩
  · refine (Buffered.ends (show 0 < RpcBlockSource.maxConcurrentBatches by decide)).mono ?_
    rintro s ⟨hwaiting, hqueue, houtput⟩
    rw [houtput]
    exact ⟨hwaiting, hqueue, RpcBlockSource.agrees_chunks heights⟩

deriving instance Countable for Log, LegacyTxType, LegacyReceipt, Transaction,
  CompatTransactionSigned, SystemTx, SealedHeader, BlockBody, SealedBlock, EvmBlock,
  BlockAndReceipts

/-- There is a codec of lists of blocks. -/
theorem nonempty_blocksCodec : Nonempty BlocksCodec := by
  obtain ⟨c, hc⟩ := Rlp.Codec.exists_roundTrips (List BlockAndReceipts)
  refine ⟨⟨c.encode, fun bytes => ((c.decode bytes).map (·.1)).mapError fun _ => "", ?_⟩⟩
  intro blocks
  have hdecode := hc.decode_encode blocks []
  rw [List.append_nil] at hdecode
  rw [hdecode]
  rfl

/-- An empty block at a height. -/
def emptyAt (height : UInt64) : BlockAndReceipts where
  block := .reth115 ⟨⟨0, { (default : Header) with number := height }⟩, ⟨[], [], some []⟩⟩
  receipts := []
  systemTxs := []
  readPrecompileCalls := []
  highestPrecompileAddress := none

/-- A height that is asked for twice is answered twice. -/
theorem collectBlocks_agree_repeated : ∃ source : RpcBlockSource,
    (source.collectBlocks [3, 1, 3]).Ends fun s =>
      RpcBlockSource.collectReplies s.output = .ok [emptyAt 3, emptyAt 1, emptyAt 3] := by
  obtain ⟨codec⟩ := nonempty_blocksCodec
  let source : RpcBlockSource := ⟨⟨codec, some fun height => .ok (emptyAt height)⟩⟩
  have hreader : source.server.reader = some fun height => .ok (emptyAt height) := rfl
  have hblock (height : UInt64) : source.collectBlock height = .ok (emptyAt height) := by
    rw [RpcBlockSource.collectBlock_of_reader hreader]
    rfl
  have hagree := (collectBlocks_agree .s3 source.collectBlock source [3, 1, 3]).2.2
  refine ⟨source, hagree.mono fun s hs => hs.2.2.ok _ ?_⟩
  exact .cons (hblock 3) (.cons (hblock 1) (.cons (hblock 3) .nil))

end Nanoreth
