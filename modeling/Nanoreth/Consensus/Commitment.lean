import Nanoreth.Consensus.PostExecution
import Nanoreth.Evm.Assembler
import Nanoreth.Lib.HashChain
import Nanoreth.Storage

/-!
# What a chain of blocks is checked for

A block is validated when its header is downloaded, when its body is, and when it has been executed
(`node/consensus/mod.rs`, `node/primitives/header.rs`, `node/primitives/body.rs`). The header is
validated against its parent, where a block may be of the same time as its parent, and the base fee
is not checked; the body, by the roots of its regular transactions, its ommers and its withdrawals;
and the receipts, by the root of those of regular transactions (`Nanoreth.Consensus.PostExecution`).

What is not in the node itself is a parameter: the checks of reth (`RethConsensus`), of which it is
assumed what they read and what follows if they succeed (`RethConsensus.Checks`), and whether an
Ethereum header is that of an empty block.

The hash of a header is that of its Ethereum header. So, what is validated is a function of a part
of each block (`ImportedBlock.committed`), and the hash of the last block determines that part of
the whole chain:

* `same_tip_iff`: the chains that are accepted with a given hash of the last block are those with
  the same Ethereum headers, regular transactions and receipts, ommers and withdrawals. The other
  parts, which are the system transactions, their count and bloom in the header, the sidecars and
  the recorded calls, may be any;
* `skippedBody_spec`: the body of a block is not downloaded if its header has neither regular nor
  system transactions by this count, and its recorded precompile data is lost then.
-/

namespace Nanoreth

open HashChain Partial

variable (C : Crypto) {B : Type}

/-! ## Validation -/

/-- Why a block is not accepted. -/
inductive ValidationError
  | timestampIsInPast (parentTimestamp timestamp : UInt64)
  /-- An error of a check of reth. -/
  | reth (message : String)

/-- What the node takes from reth, the parameters of blobs being `B`. -/
structure RethConsensus (B : Type) where
  validateHeader : HlHeader → Except ValidationError Unit
  /-- Checks a header, given its parent. -/
  validateAgainstParentHashNumber : HlHeader → HlHeader → Except ValidationError Unit
  validateAgainstParent4844 : HlHeader → HlHeader → B → Except ValidationError Unit
  validateBodyAgainstHeader : HlBlockBody → HlHeader → Except ValidationError Unit
  calculateOmmersRoot : List HlHeader → B256

/-- What is assumed of the checks of reth. They read the Ethereum headers, and of a body what its
    roots are made of. If they succeed, the header names the hash and the number of its parent, and
    has the roots of the body. -/
structure RethConsensus.Checks (reth : RethConsensus B) : Prop where
  -- The checks depend on what is hashed only: the Ethereum header, and what the roots are of.
  header_congr : ∀ {header header' : HlHeader}, header.inner = header'.inner →
    reth.validateHeader header = reth.validateHeader header'
  hashNumber_congr : ∀ {header header' parent parent' : HlHeader}, header.inner = header'.inner →
    parent.inner = parent'.inner → reth.validateAgainstParentHashNumber header parent =
      reth.validateAgainstParentHashNumber header' parent'
  blobs_congr : ∀ {header header' parent parent' : HlHeader} (blobParams : B),
    header.inner = header'.inner → parent.inner = parent'.inner →
    reth.validateAgainstParent4844 header parent blobParams =
      reth.validateAgainstParent4844 header' parent' blobParams
  body_congr : ∀ {body body' : HlBlockBody} {header header' : HlHeader},
    body.transactionsForRoot = body'.transactionsForRoot →
    body.inner.ommers = body'.inner.ommers → body.inner.withdrawals = body'.inner.withdrawals →
    header.inner = header'.inner →
    reth.validateBodyAgainstHeader body header = reth.validateBodyAgainstHeader body' header'
  -- What the checks guarantee if they succeed.
  parentHash : ∀ {header parent : HlHeader},
    reth.validateAgainstParentHashNumber header parent = .ok () →
    header.inner.parentHash = parent.hash C
  number : ∀ {header parent : HlHeader},
    reth.validateAgainstParentHashNumber header parent = .ok () →
    header.inner.number.toNat = parent.inner.number.toNat + 1
  ommersHash : ∀ {body : HlBlockBody} {header : HlHeader},
    reth.validateBodyAgainstHeader body header = .ok () →
    header.inner.ommersHash = reth.calculateOmmersRoot body.inner.ommers
  transactionsRoot : ∀ {body : HlBlockBody} {header : HlHeader},
    reth.validateBodyAgainstHeader body header = .ok () →
    header.inner.transactionsRoot = body.calculateTxRoot C
  withdrawalsRoot : ∀ {body : HlBlockBody} {header : HlHeader},
    reth.validateBodyAgainstHeader body header = .ok () →
    header.inner.withdrawalsRoot = body.inner.withdrawals.map (calculateWithdrawalsRoot C)

/-- The consensus of the node. -/
structure HlConsensus (B : Type) where
  inner : RethConsensus B
  blobParamsAtTimestamp : UInt64 → Option B
  chainSpec : ChainSpec
  hardforks_eq : chainSpec.hardforks = hlHardforks

/-- A block may be of the same time as its parent. -/
def validateAgainstParentTimestamp (header parent : HlHeader) : Except ValidationError Unit :=
  if header.inner.timestamp < parent.inner.timestamp then
    .error (.timestampIsInPast parent.inner.timestamp header.inner.timestamp)
  else .ok ()

namespace HlConsensus

variable (consensus : HlConsensus B)

/-- The header alone is validated by reth. -/
def validateHeader (header : HlHeader) : Except ValidationError Unit :=
  consensus.inner.validateHeader header

/-- Validates a header against its parent. The base fee is not checked. -/
def validateHeaderAgainstParent (header parent : HlHeader) : Except ValidationError Unit := do
  consensus.inner.validateAgainstParentHashNumber header parent
  validateAgainstParentTimestamp header parent
  match consensus.blobParamsAtTimestamp header.inner.timestamp with
  | some blobParams => consensus.inner.validateAgainstParent4844 header parent blobParams
  | none => pure ()

/-- The body is validated by reth. -/
def validateBodyAgainstHeader (body : HlBlockBody) (header : HlHeader) :
    Except ValidationError Unit :=
  consensus.inner.validateBodyAgainstHeader body header

/-- Nothing is validated before the execution. -/
def validateBlockPreExecution (_consensus : HlConsensus B) (_block : HlBlock) :
    Except ValidationError Unit := .ok ()

end HlConsensus

/-- A block, and what its execution returns. -/
structure ImportedBlock where
  block : HlBlock
  receipts : List EthereumReceipt
  requests : List Bytes

/-- A block is validated against its parent. -/
structure Accepts (consensus : HlConsensus B) (parent : HlHeader) (imported : ImportedBlock) :
    Prop where
  header : consensus.validateHeader imported.block.header = .ok ()
  parent : consensus.validateHeaderAgainstParent imported.block.header parent = .ok ()
  body : consensus.validateBodyAgainstHeader imported.block.body imported.block.header = .ok ()
  preExecution : consensus.validateBlockPreExecution imported.block = .ok ()
  postExecution : validateBlockPostExecution C imported.block consensus.chainSpec imported.receipts
    imported.requests = .ok ()

/-- Each block of a chain is validated against the one before. -/
def AcceptsChain (consensus : HlConsensus B) : HlHeader → List ImportedBlock → Prop
  | _, [] => True
  | parent, imported :: chain =>
    Accepts C consensus parent imported ∧ AcceptsChain consensus imported.block.header chain

/-- The hash of the last block of a chain on a header. -/
def tipHash (parent : HlHeader) (chain : List ImportedBlock) : B256 :=
  ((chain.map (·.block.header)).getLastD parent).hash C

/-! ## What is validated -/

/-- What the hash of a block commits to. -/
structure Committed where
  header : Header
  transactions : List TransactionSigned
  ommers : List HlHeader
  withdrawals : Option (List Withdrawal)
  receipts : List EthereumReceipt
  gasUsed : UInt64

/-- The part of a block that its hash commits to. -/
def ImportedBlock.committed (imported : ImportedBlock) : Committed where
  header := imported.block.header.inner
  transactions := imported.block.body.transactionsForRoot
  ommers := imported.block.body.inner.ommers
  withdrawals := imported.block.body.inner.withdrawals
  receipts := receiptsForRoot imported.receipts
  gasUsed := (imported.receipts.getLast?.map (·.cumulativeGasUsed)).getD 0

variable {C} {consensus : HlConsensus B}

/-- The roots of a header are those of the data. -/
structure Committed.Matches (C : Crypto) (reth : RethConsensus B) (data : Committed) : Prop where
  ommersHash : data.header.ommersHash = reth.calculateOmmersRoot data.ommers
  transactionsRoot : data.header.transactionsRoot = calculateTransactionRoot C data.transactions
  withdrawalsRoot : data.header.withdrawalsRoot = data.withdrawals.map (calculateWithdrawalsRoot C)
  gasUsed : data.header.gasUsed = data.gasUsed
  receiptsRoot : data.header.receiptsRoot = calculateReceiptRoot C data.receipts

/-- The check after the execution is one of the committed part. -/
theorem validateBlockPostExecution_iff {imported : ImportedBlock} :
    validateBlockPostExecution C imported.block consensus.chainSpec imported.receipts
        imported.requests = .ok () ↔
      imported.committed.header.gasUsed = imported.committed.gasUsed ∧
        calculateReceiptRoot C imported.committed.receipts =
          imported.committed.header.receiptsRoot ∧
        logsBloom C (imported.committed.receipts.flatMap (·.logs)) =
          imported.committed.header.logsBloom := by
  have hforks := hlHardforks_active consensus.chainSpec consensus.hardforks_eq
  exact validateBlockPostExecution_eq_ok C (hforks imported.block.header.inner.number).1
    (hforks imported.block.header.inner.timestamp).2

/-- The check against the parent depends on the Ethereum headers only. -/
theorem validateHeaderAgainstParent_congr (hreth : consensus.inner.Checks C)
    {header header' parent parent' : HlHeader} (hheader : header.inner = header'.inner)
    (hparent : parent.inner = parent'.inner) :
    consensus.validateHeaderAgainstParent header parent =
      consensus.validateHeaderAgainstParent header' parent' := by
  unfold HlConsensus.validateHeaderAgainstParent validateAgainstParentTimestamp
  rw [hreth.hashNumber_congr hheader hparent, hheader, hparent]
  cases consensus.blobParamsAtTimestamp header'.inner.timestamp with
  | none => rfl
  | some blobParams =>
    dsimp only
    rw [hreth.blobs_congr blobParams hheader hparent]

namespace Accepts

variable {parent parent' : HlHeader} {imported imported' : ImportedBlock}

/-- What is validated is a function of the committed part of the block, and of the Ethereum header
    of its parent. -/
theorem congr (hreth : consensus.inner.Checks C) (hparent : parent.inner = parent'.inner)
    (hsame : imported.committed = imported'.committed) (h : Accepts C consensus parent imported) :
    Accepts C consensus parent' imported' where
  header := (hreth.header_congr (congrArg Committed.header hsame)).symm.trans h.header
  parent := (validateHeaderAgainstParent_congr hreth (congrArg Committed.header hsame)
    hparent).symm.trans h.parent
  body := (hreth.body_congr (congrArg Committed.transactions hsame)
    (congrArg Committed.ommers hsame) (congrArg Committed.withdrawals hsame)
    (congrArg Committed.header hsame)).symm.trans h.body
  preExecution := rfl
  postExecution := by
    have hpost := validateBlockPostExecution_iff.1 h.postExecution
    rw [hsame] at hpost
    exact validateBlockPostExecution_iff.2 hpost

/-- An accepted block has the hash of its parent and the number after it. -/
theorem follows (hreth : consensus.inner.Checks C) (h : Accepts C consensus parent imported) :
    imported.committed.header.parentHash = C.hashSlow parent.inner ∧
      imported.committed.header.number.toNat = parent.inner.number.toNat + 1 := by
  obtain ⟨_, hchecked, -⟩ := except_bind_eq_ok.1 h.parent
  exact ⟨hreth.parentHash hchecked, hreth.number hchecked⟩

/-- An accepted block has the body that its header commits to. -/
theorem isMatch (hreth : consensus.inner.Checks C) (h : Accepts C consensus parent imported) :
    imported.committed.Matches C consensus.inner := by
  obtain ⟨hgas, hreceipts, -⟩ := validateBlockPostExecution_iff.1 h.postExecution
  exact ⟨hreth.ommersHash h.body, hreth.transactionsRoot h.body, hreth.withdrawalsRoot h.body, hgas,
    hreceipts.symm⟩

end Accepts

/-! ## Chains -/

namespace AcceptsChain

variable {parent parent' : HlHeader} {chain chain' : List ImportedBlock}

/-- What is accepted depends on what the hash commits to only. -/
theorem congr (hreth : consensus.inner.Checks C) (hparent : parent.inner = parent'.inner)
    (hsame : chain.map (·.committed) = chain'.map (·.committed))
    (h : AcceptsChain C consensus parent chain) : AcceptsChain C consensus parent' chain' := by
  induction chain generalizing parent parent' chain' with
  | nil =>
    rw [List.map_nil, eq_comm, List.map_eq_nil_iff] at hsame
    rw [hsame]
    trivial
  | cons imported chain ih =>
    cases chain' with
    | nil => cases hsame
    | cons imported' chain' =>
      obtain ⟨hfirst, hrest⟩ := List.cons.inj hsame
      exact ⟨h.1.congr hreth hparent hfirst, ih (congrArg Committed.header hfirst) hrest h.2⟩

/-- The headers of a chain name the hashes of those before. -/
theorem linked (hreth : consensus.inner.Checks C) (h : AcceptsChain C consensus parent chain) :
    Linked C.hashSlow (·.parentHash) parent.inner (chain.map (·.committed.header)) := by
  induction chain generalizing parent with
  | nil => exact trivial
  | cons imported rest ih => exact ⟨(h.1.follows hreth).1, ih h.2⟩

/-- The number of the tip is the number of blocks after the parent. -/
theorem number_getLastD (hreth : consensus.inner.Checks C)
    (h : AcceptsChain C consensus parent chain) :
    ((chain.map (·.committed.header)).getLastD parent.inner).number.toNat =
      parent.inner.number.toNat + chain.length := by
  induction chain generalizing parent with
  | nil => rfl
  | cons imported rest ih =>
    have hnumber := (h.1.follows hreth).2
    have hrest := ih h.2
    rw [List.map_cons, List.getLastD_cons]
    change _ = imported.committed.header.number.toNat + rest.length at hrest
    rw [List.length_cons]
    exact hrest.trans (by omega)

/-- Accepted blocks have the bodies that their headers commit to. -/
theorem matches_of_mem (hreth : consensus.inner.Checks C)
    (h : AcceptsChain C consensus parent chain) :
    ∀ data ∈ chain.map (·.committed), data.Matches C consensus.inner := by
  induction chain generalizing parent with
  | nil => exact fun data hdata => absurd hdata List.not_mem_nil
  | cons imported rest ih => exact List.forall_mem_cons.2 ⟨h.1.isMatch hreth, ih h.2⟩

end AcceptsChain

/-- Nothing in one chain has the hash or root of something else in the other one. -/
structure CollisionFree (C : Crypto) (reth : RethConsensus B) (parent parent' : Header)
    (chain chain' : List Committed) : Prop where
  header : NoCollision C.hashSlow (parent :: chain.map (·.header))
    (parent' :: chain'.map (·.header))
  transactions : NoCollision (calculateTransactionRoot C) (chain.map (·.transactions))
    (chain'.map (·.transactions))
  ommers : NoCollision reth.calculateOmmersRoot (chain.map (·.ommers)) (chain'.map (·.ommers))
  withdrawals : NoCollision (Option.map (calculateWithdrawalsRoot C)) (chain.map (·.withdrawals))
    (chain'.map (·.withdrawals))
  receipts : NoCollision (calculateReceiptRoot C) (chain.map (·.receipts))
    (chain'.map (·.receipts))

/-- A header commits to its block. -/
theorem CollisionFree.noCollision {reth : RethConsensus B} {parent parent' : Header}
    {chain chain' : List Committed} (hfree : CollisionFree C reth parent parent' chain chain')
    (hchain : ∀ data ∈ chain, data.Matches C reth)
    (hchain' : ∀ data ∈ chain', data.Matches C reth) :
    NoCollision (·.header) chain chain' := by
  intro data hdata data' hdata' (heq : data.header = data'.header)
  have hmatches := hchain data hdata
  have hmatches' := hchain' data' hdata'
  -- Equal headers have equal roots, and each root determines what it is of.
  have htransactions : data.transactions = data'.transactions :=
    hfree.transactions _ (List.mem_map_of_mem hdata) _ (List.mem_map_of_mem hdata') (by
      rw [← hmatches.transactionsRoot, ← hmatches'.transactionsRoot, heq])
  have hommers : data.ommers = data'.ommers :=
    hfree.ommers _ (List.mem_map_of_mem hdata) _ (List.mem_map_of_mem hdata') (by
      rw [← hmatches.ommersHash, ← hmatches'.ommersHash, heq])
  have hwithdrawals : data.withdrawals = data'.withdrawals :=
    hfree.withdrawals _ (List.mem_map_of_mem hdata) _ (List.mem_map_of_mem hdata') (by
      rw [← hmatches.withdrawalsRoot, ← hmatches'.withdrawalsRoot, heq])
  have hreceipts : data.receipts = data'.receipts :=
    hfree.receipts _ (List.mem_map_of_mem hdata) _ (List.mem_map_of_mem hdata') (by
      rw [← hmatches.receiptsRoot, ← hmatches'.receiptsRoot, heq])
  have hgas : data.gasUsed = data'.gasUsed := by
    rw [← hmatches.gasUsed, ← hmatches'.gasUsed, heq]
  cases data
  cases data'
  simp_all

/-- The hash of the tip is that of its Ethereum header. -/
theorem tipHash_eq (parent : HlHeader) (chain : List ImportedBlock) :
    tipHash C parent chain =
      C.hashSlow ((chain.map (·.committed.header)).getLastD parent.inner) := by
  induction chain generalizing parent with
  | nil => rfl
  | cons imported chain ih =>
    rw [tipHash, List.map_cons, List.map_cons, List.getLastD_cons, List.getLastD_cons]
    exact ih imported.block.header

/-- **Commitment**: let a chain be accepted, and another one on a header of the same number not
    collide with it. That one is accepted with the same hash of the last block exactly if the
    committed parts of the two are the same. -/
theorem same_tip_iff (hreth : consensus.inner.Checks C) {parent parent' : HlHeader}
    {chain chain' : List ImportedBlock} (hchain : AcceptsChain C consensus parent chain)
    (hnumber : parent'.inner.number = parent.inner.number)
    (hfree : CollisionFree C consensus.inner parent'.inner parent.inner
      (chain'.map (·.committed)) (chain.map (·.committed))) :
    AcceptsChain C consensus parent' chain' ∧ tipHash C parent' chain' = tipHash C parent chain ↔
      parent'.inner = parent.inner ∧ chain'.map (·.committed) = chain.map (·.committed) := by
  constructor
  · rintro ⟨hchain', htip⟩
    have hheader := hfree.header
    rw [tipHash_eq, tipHash_eq] at htip
    rw [List.map_map, List.map_map] at hheader
    change NoCollision C.hashSlow (_ :: chain'.map (·.committed.header))
      (_ :: chain.map (·.committed.header)) at hheader
    -- The last headers are the same, and their numbers tell the lengths of the chains.
    have hlast := hheader _ (List.getLastD_mem_cons ..) _ (List.getLastD_mem_cons ..) htip
    have hlength : chain'.length = chain.length := by
      have hlen' := hchain'.number_getLastD hreth
      have hlen := hchain.number_getLastD hreth
      rw [hlast, hlen, hnumber] at hlen'
      omega
    obtain ⟨hparent, hheaders⟩ := (hchain'.linked hreth).eq_of_hash_last (hchain.linked hreth)
      hheader (by rw [List.length_map, List.length_map, hlength]) htip
    refine ⟨hparent, NoCollision.eq_of_map_eq (hfree.noCollision (hchain'.matches_of_mem hreth)
      (hchain.matches_of_mem hreth)) ?_⟩
    rw [List.map_map, List.map_map]
    exact hheaders
  · rintro ⟨hparent, hsame⟩
    refine ⟨hchain.congr hreth hparent.symm hsame.symm, ?_⟩
    have hheaders := congrArg (List.map Committed.header) hsame
    rw [List.map_map, List.map_map] at hheaders
    rw [tipHash_eq, tipHash_eq, hparent]
    exact congrArg (fun headers => C.hashSlow (headers.getLastD parent.inner)) hheaders

/-- Headers are hashed to their numbers. -/
def heightCrypto : Crypto :=
  { emptyCrypto with hashSlow := fun header => BitVec.ofNat 256 header.number.toNat }

/-- A check of a proposition. -/
def checked (p : Prop) [Decidable p] : Except ValidationError Unit :=
  if p then .ok () else .error (.reth "mismatch")

theorem of_checked {p : Prop} [Decidable p] (h : checked p = .ok ()) : p := by
  by_contra hp
  rw [checked, if_neg hp] at h
  cases h

/-- Checks of the hash and the number of the parent, and of the roots of the body. -/
def heightReth : RethConsensus Empty where
  validateHeader _ := .ok ()
  validateAgainstParentHashNumber header parent :=
    checked (header.inner.parentHash = heightCrypto.hashSlow parent.inner ∧
      header.inner.number.toNat = parent.inner.number.toNat + 1)
  validateAgainstParent4844 _ _ _ := .ok ()
  validateBodyAgainstHeader body header :=
    checked (header.inner.ommersHash = emptyOmmerRootHash ∧
      header.inner.transactionsRoot =
        calculateTransactionRoot heightCrypto body.transactionsForRoot ∧
      header.inner.withdrawalsRoot =
        body.inner.withdrawals.map (calculateWithdrawalsRoot heightCrypto))
  calculateOmmersRoot _ := emptyOmmerRootHash

/-- These checks are what `RethConsensus.Checks` asks for. -/
theorem checks_heightReth : heightReth.Checks heightCrypto where
  header_congr _ := rfl
  hashNumber_congr hheader hparent := by
    dsimp only [heightReth]
    rw [hheader, hparent]
  blobs_congr _ _ _ := rfl
  body_congr htransactions _ hwithdrawals hheader := by
    dsimp only [heightReth]
    rw [htransactions, hwithdrawals, hheader]
  parentHash h := (of_checked h).1
  number h := (of_checked h).2
  ommersHash h := (of_checked h).1
  transactionsRoot h := (of_checked h).2.1
  withdrawalsRoot h := (of_checked h).2.2

/-- The consensus of a node with these checks and without blobs. -/
def heightConsensus : HlConsensus Empty where
  inner := heightReth
  blobParamsAtTimestamp _ := none
  chainSpec := ⟨hlHardforks, fun _ _ => none⟩
  hardforks_eq := rfl

/-- The header of the first block. -/
def genesisHeader : HlHeader := ⟨default, 0, 0⟩

/-- The first block, of a system transaction, with a count of such transactions in its header. -/
def systemBlock (count : ℕ) : ImportedBlock where
  block :=
    { header :=
        { inner :=
            { (default : Header) with
              number := 1
              ommersHash := emptyOmmerRootHash
              transactionsRoot := emptyRootHash
              receiptsRoot := emptyRootHash }
          extras := ⟨0, count⟩ }
      body :=
        { inner := ⟨[(emptyTransfer 0).tx], [], none⟩
          sidecars := none
          readPrecompileCalls := none
          highestPrecompileAddress := some 0x80d } }
  receipts := [⟨.legacy, true, 0, []⟩]
  requests := []

/-- The count of system transactions is not checked. -/
theorem same_tip_iff_miscounted :
    AcceptsChain heightCrypto heightConsensus genesisHeader [systemBlock 0] ∧
      tipHash heightCrypto genesisHeader [systemBlock 0] =
        tipHash heightCrypto genesisHeader [systemBlock 1] :=
  have hchain : AcceptsChain heightCrypto heightConsensus genesisHeader [systemBlock 1] :=
    ⟨⟨rfl, rfl, rfl, rfl, by decide +kernel⟩, trivial⟩
  (same_tip_iff checks_heightReth hchain rfl ⟨by decide +kernel, by decide +kernel,
    by decide +kernel, by decide +kernel, by decide +kernel⟩).2 ⟨rfl, rfl⟩

/-! ## Bodies that are not downloaded -/

/-- Whether a block is empty, given this for Ethereum headers. -/
def HlHeader.isEmpty (ethIsEmpty : Header → Bool) (header : HlHeader) : Bool :=
  header.extras.systemTxCount == 0 && ethIsEmpty header.inner

/-- What is assumed of alloy: the roots of an empty header are those of empty lists. -/
def ChecksEmptyRoots (ethIsEmpty : Header → Bool) : Prop :=
  ∀ header, ethIsEmpty header = true ↔ header.transactionsRoot = emptyRootHash ∧
    header.ommersHash = emptyOmmerRootHash ∧
    header.withdrawalsRoot.getD emptyRootHash = emptyRootHash

/-- What is assumed of the downloader of reth: what it passes on to be stored for a block is its
    body, unless its header is empty. -/
structure Downloads (ethIsEmpty : Header → Bool) (block : HlBlock)
    (downloaded : Option HlBlockBody) : Prop where
  skipped : block.header.isEmpty ethIsEmpty = true → downloaded = none
  requested : block.header.isEmpty ethIsEmpty = false → downloaded = some block.body

/-- The roots of empty lists, which are those of no other list of the body. -/
structure EmptyRoots (C : Crypto) (reth : RethConsensus B) (body : HlBlockBody) : Prop where
  trie : C.orderedTrieRoot [] = emptyRootHash
  ommers : reth.calculateOmmersRoot [] = emptyOmmerRootHash
  transactions_free : NoCollision (calculateTransactionRoot C) [body.transactionsForRoot] [[]]
  ommers_free : NoCollision reth.calculateOmmersRoot [body.inner.ommers] [[]]
  withdrawals_free : NoCollision (calculateWithdrawalsRoot C) body.inner.withdrawals.toList [[]]

section Skipped

variable {block : HlBlock} {ethIsEmpty : Header → Bool} {downloaded : Option HlBlockBody}
  (hreth : consensus.inner.Checks C) (hisEmpty : ChecksEmptyRoots ethIsEmpty)
  (hbody : consensus.validateBodyAgainstHeader block.body block.header = .ok ())
  (hroots : EmptyRoots C consensus.inner block.body)
include hreth hisEmpty hbody hroots

/-- A block counts as empty if it has neither system transactions, nor transactions, ommers or
    withdrawals. -/
theorem isEmpty_iff : block.header.isEmpty ethIsEmpty = true ↔
    block.header.extras.systemTxCount = 0 ∧ block.body.transactionsForRoot = [] ∧
    block.body.inner.ommers = [] ∧ block.body.inner.withdrawals.getD [] = [] := by
  -- Each root is the empty one exactly if there is nothing below it.
  have htransactions_iff : block.header.inner.transactionsRoot = emptyRootHash ↔
      block.body.transactionsForRoot = [] := by
    rw [hreth.transactionsRoot hbody, HlBlockBody.calculateTxRoot, ← hroots.trie]
    refine ⟨hroots.transactions_free _ List.mem_cons_self _ List.mem_cons_self, fun h => ?_⟩
    rw [h]
    rfl
  have hommers_iff : block.header.inner.ommersHash = emptyOmmerRootHash ↔
      block.body.inner.ommers = [] := by
    rw [hreth.ommersHash hbody, ← hroots.ommers]
    exact ⟨hroots.ommers_free _ List.mem_cons_self _ List.mem_cons_self, fun h => by rw [h]⟩
  have hwithdrawals_iff : block.header.inner.withdrawalsRoot.getD emptyRootHash = emptyRootHash ↔
      block.body.inner.withdrawals.getD [] = [] := by
    rw [hreth.withdrawalsRoot hbody]
    cases hcase : block.body.inner.withdrawals with
    | none => exact iff_of_true rfl rfl
    | some withdrawals =>
      rw [Option.map_some, Option.getD_some, Option.getD_some, ← hroots.trie]
      refine ⟨hroots.withdrawals_free _ ?_ _ List.mem_cons_self, fun h => by rw [h]; rfl⟩
      rw [hcase]
      exact List.mem_cons_self
  rw [HlHeader.isEmpty, Bool.and_eq_true, beq_iff_eq, hisEmpty, htransactions_iff, hommers_iff,
    hwithdrawals_iff]

/-- The body of a block is not downloaded if the block counts as empty. -/
theorem downloaded_eq_none_iff (hdownloads : Downloads ethIsEmpty block downloaded) :
    downloaded = none ↔
    block.header.extras.systemTxCount = 0 ∧ block.body.transactionsForRoot = [] ∧
      block.body.inner.ommers = [] ∧ block.body.inner.withdrawals.getD [] = [] := by
  rw [← isEmpty_iff hreth hisEmpty hbody hroots]
  refine ⟨fun hnone => ?_, hdownloads.skipped⟩
  by_contra hempty
  cases hnone.symm.trans (hdownloads.requested (Bool.not_eq_true _ ▸ hempty))

end Skipped

/-- A body is skipped by the count of system transactions in its header, whatever transactions of
    this kind it has. -/
theorem skippedBody_spec {block : HlBlock} {ethIsEmpty : Header → Bool}
    {downloaded : Option HlBlockBody} (hreth : consensus.inner.Checks C)
    (hisEmpty : ChecksEmptyRoots ethIsEmpty)
    (hbody : consensus.validateBodyAgainstHeader block.body block.header = .ok ())
    (hroots : EmptyRoots C consensus.inner block.body)
    (hdownloads : Downloads ethIsEmpty block downloaded) :
    (downloaded = none ↔ block.header.extras.systemTxCount = 0 ∧
      block.body.transactionsForRoot = [] ∧ block.body.inner.ommers = [] ∧
      block.body.inner.withdrawals.getD [] = []) ∧
    (block.header.extras.systemTxCount =
        block.body.inner.transactions.countP (·.isSystemTransaction) →
      (downloaded = none ↔ block.body.inner.transactions = [] ∧
        block.body.inner.ommers = [] ∧ block.body.inner.withdrawals.getD [] = [])) ∧
    ∀ {E ε : Type} (S : EthStorage E ε) (M : ExtrasCodec) (ops : List StorageOp) (db : Database E),
      runStorage S M ops = .ok db →
      written ops block.header.inner.number.toNat = some downloaded →
      ∃ body, readBlockBodies S M db [(block.header, block.body.inner.transactions)] = .ok [body] ∧
        (downloaded ≠ none → body = { block.body with sidecars := none }) ∧
        (downloaded = none → body.extras = ⟨none, none⟩) := by
  have hnone := downloaded_eq_none_iff hreth hisEmpty hbody hroots hdownloads
  refine ⟨hnone, fun hcount => ?_, fun S M ops db hrun hwritten => ?_⟩
  -- With the right count, a body without regular and without counted transactions has none at all.
  · rw [hnone, ← and_assoc, hcount]
    refine and_congr_left fun _ => ?_
    rw [List.countP_eq_zero, HlBlockBody.transactionsForRoot, List.filter_eq_nil_iff]
    constructor
    · rintro ⟨hregular, hsystem⟩
      refine List.eq_nil_iff_forall_not_mem.2 fun tx htx => ?_
      have hnot := hregular tx htx
      have hsystem := hsystem tx htx
      simp_all
    · intro h
      rw [h]
      simp
  -- What was written is read back; a body that was not downloaded was written as none.
  · let input : ReadBodyInput := (block.header, block.body.inner.transactions)
    have hread : readBlockBodies S M db [input] = .ok [readBody S input downloaded] :=
      @Lockstep.readBlockBodies_eq _ _ S M db _ (lockstep_run hrun)
        [(input, downloaded)] (List.forall_mem_singleton.2 hwritten)
    refine ⟨_, hread, fun h => ?_, fun h => ?_⟩
    · have hrequested := hdownloads.requested
        (Bool.eq_false_iff.2 fun hempty => h (hdownloads.skipped hempty))
      rw [hrequested]
      rfl
    · rw [h]
      rfl

/-- The roots of a header are those of empty lists. -/
def hasEmptyRoots (header : Header) : Bool :=
  header.transactionsRoot = emptyRootHash ∧ header.ommersHash = emptyOmmerRootHash ∧
    header.withdrawalsRoot.getD emptyRootHash = emptyRootHash

/-- The body is skipped, though it has a system transaction, and its highest precompile is lost. -/
theorem skippedBody_spec_miscounted :
    (systemBlock 0).block.body.highestPrecompileAddress = some 0x80d ∧
    ∃ M db body, runStorage mapStorage M [.writeBlockBodies [(1, none)]] = .ok db ∧
      readBlockBodies mapStorage M db [((systemBlock 0).block.header, [(emptyTransfer 0).tx])] =
        .ok [body] ∧ body.highestPrecompileAddress = none := by
  have hdownloads : Downloads hasEmptyRoots (systemBlock 0).block none :=
    ⟨fun _ => rfl, fun h => by cases h⟩
  have hspec := @skippedBody_spec heightCrypto _ heightConsensus _ _ _ checks_heightReth
    (fun _ => decide_eq_true_iff) rfl ⟨rfl, rfl, by decide, by decide, by decide⟩ hdownloads
  obtain ⟨M⟩ := nonempty_extrasCodec
  obtain ⟨body, hread, -, hextras⟩ := hspec.2.2 mapStorage M [.writeBlockBodies [(1, none)]] _ rfl
    rfl
  exact ⟨rfl, M, _, body, rfl, hread, congrArg HlExtras.highestPrecompileAddress (hextras rfl)⟩

end Nanoreth
