import Nanoreth.Consensus.CanonicalHead
import Nanoreth.Primitives.Block
import Nanoreth.Lib.Transition
import Mathlib.Logic.Function.Basic

/-!
# Block import

The node imports announced blocks by two calls of the engine for each block
(`network/block_import/service.rs`): one with the block, and one with the head to follow,
which is the better of the block and the head of the chain. Both calls are futures, polled
in any order. The engine processes its messages in order, but at any later time; only
then does the head of the chain change, if at all.

The head of the chain is read when the second future is first polled. If a better head was
sent to the engine before, and the engine has not adopted it, the node goes back from it
(`forkChoice_goes_back`). This is the only way to go back (`forkChoice_monotone_iff`).

The engine is known by hashes only. The number of the block of a hash is a parameter,
`numberOf`.
-/

namespace Nanoreth

open Transition HlConsensus

/-- The public key of a peer. -/
abbrev PeerId := BitVec 512

/-- An announced block. -/
structure BlockMsg (C : Crypto) (numberOf : B256 → UInt64) where
  block : HlBlock
  number_eq : numberOf (block.header.hash C) = block.header.inner.number

/-- A fork choice that is sent to the engine. -/
structure ForkchoiceState where
  headBlockHash : B256
  safeBlockHash : B256
  finalizedBlockHash : B256
  deriving DecidableEq

/-- What the engine says about a block. -/
inductive PayloadStatus
  | valid
  | invalid (validationError : String)
  | syncing
  | accepted
  deriving DecidableEq

/-- The answer of the engine, unless the call fails. -/
abbrev EngineResponse := Option PayloadStatus

/-- The blocks of the chain, by their number. -/
structure Chain (numberOf : B256 → UInt64) where
  best : UInt64
  hashes : UInt64 → Option B256
  number_eq : ∀ {n h}, hashes n = some h → numberOf h = n

/-- The provider reads the blocks of the chain, where it does not fail. -/
structure Provider.Reads {P : Type} {numberOf : B256 → UInt64} (provider : Provider P)
    (chain : Chain numberOf) : Prop where
  best {n : UInt64} : provider.bestBlockNumber = .ok n → n = chain.best
  hash {n : UInt64} {h : Option B256} : provider.blockHash n = .ok h → h = chain.hashes n

section Service

variable (C : Crypto) (numberOf : B256 → UInt64)

/-- What the network is told of an announced block. -/
structure Outcome where
  peer : PeerId
  result : Except String (BlockMsg C numberOf)

/-- A message to the engine, with the import that waits for the answer. -/
inductive EngineMessage
  | newPayload (block : BlockMsg C numberOf) (tx : ℕ)
  | forkchoiceUpdated (state : ForkchoiceState) (tx : ℕ)

/-- The function a future is made by. -/
inductive ImportCall
  | newPayload
  | updateForkChoice
  deriving DecidableEq

/-- How far an import has come. -/
inductive ImportPhase
  | start
  | awaiting
  | answered (response : EngineResponse)
  deriving DecidableEq

/-- A pending import. -/
structure ImportFut where
  call : ImportCall
  block : BlockMsg C numberOf
  peer : PeerId
  phase : ImportPhase

/-- What a poll of an import finds: it is done, or waits, having sent a message. -/
inductive Polled
  | ready (outcome : Option (Outcome C numberOf))
  | pending (message : Option (EngineMessage C numberOf))

/-- The state of the service and the engine. All fork choices sent to the engine are
    recorded. -/
structure ImportState where
  fromNetwork : List (BlockMsg C numberOf × PeerId)
  toNetwork : List (Outcome C numberOf)
  pendingImports : ℕ → Option (ImportFut C numberOf)
  nextImport : ℕ
  engine : List (EngineMessage C numberOf)
  chain : Chain numberOf
  sent : List ForkchoiceState

/-- A step: a block is announced, or taken up; an import is polled, reading the chain; or
    the engine processes a message. -/
inductive ImportLabel (P : Type)
  | announce (block : BlockMsg C numberOf) (peer : PeerId)
  | onNewBlock
  | poll (id : ℕ) (provider : Provider P)
  | process (response : EngineResponse) (chain : Chain numberOf)

variable {C numberOf} {P : Type}

namespace BlockMsg

/-- The hash of the block. -/
def hash (block : BlockMsg C numberOf) : B256 := block.block.header.hash C

/-- The number of the block. -/
def number (block : BlockMsg C numberOf) : UInt64 := block.block.header.inner.number

end BlockMsg

namespace EngineMessage

/-- The import that waits for the answer. -/
def tx : EngineMessage C numberOf → ℕ
  | newPayload _ tx => tx
  | forkchoiceUpdated _ tx => tx

/-- The fork choice of a message, if it is one. -/
def forkchoiceState : EngineMessage C numberOf → Option ForkchoiceState
  | newPayload _ _ => none
  | forkchoiceUpdated state _ => some state

/-- What the engine may do to the chain when it processes a message. -/
def Moves (message : EngineMessage C numberOf) (chain chain' : Chain numberOf) : Prop :=
  chain' = chain ∨ ∃ state ∈ message.forkchoiceState,
    chain'.hashes chain'.best = some state.headBlockHash

end EngineMessage

namespace ImportFut

/-- The outcome of an import, given the answer of the engine. -/
def outcome (fut : ImportFut C numberOf) : EngineResponse → Option (Outcome C numberOf)
  | some .valid => some ⟨fut.peer, .ok fut.block⟩
  | some (.invalid validationError) => some ⟨fut.peer, .error validationError⟩
  | _ => none

/-- An import sends its request when it is polled first, and is ready once it is answered. -/
def poll (fut : ImportFut C numberOf) (id : ℕ) (provider : Provider P) : Polled C numberOf :=
  match fut.phase with
  | .answered response => .ready (fut.outcome response)
  | .awaiting => .pending none
  | .start =>
    match fut.call with
    | .newPayload => .pending (some (.newPayload fut.block id))
    | .updateForkChoice =>
      -- The head is chosen when the future is first polled, by the chain at that time.
      match canonicalHead provider fut.block.hash fut.block.number with
      | .error _ => .ready none
      | .ok (head, _) => .pending (some (.forkchoiceUpdated ⟨head, head, head⟩ id))

end ImportFut

namespace ImportState

/-- Adds the imports of a block. -/
def onNewBlock (s : ImportState C numberOf) (block : BlockMsg C numberOf) (peer : PeerId) :
    ImportState C numberOf :=
  { s with
    pendingImports := Function.update
      (Function.update s.pendingImports s.nextImport (some ⟨.newPayload, block, peer, .start⟩))
      (s.nextImport + 1) (some ⟨.updateForkChoice, block, peer, .start⟩)
    nextImport := s.nextImport + 2 }

/-- Polls an import. The outcome of one that is done goes to the network. -/
def poll (s : ImportState C numberOf) (id : ℕ) (fut : ImportFut C numberOf)
    (provider : Provider P) : ImportState C numberOf :=
  match fut.poll id provider with
  | .ready outcome =>
    { s with
      pendingImports := Function.update s.pendingImports id none
      toNetwork := s.toNetwork ++ outcome.toList }
  -- The engine has not answered yet.
  | .pending none => s
  | .pending (some message) =>
    { s with
      pendingImports := Function.update s.pendingImports id (some { fut with phase := .awaiting })
      engine := s.engine ++ [message]
      sent := s.sent ++ message.forkchoiceState.toList }

/-- Answers an import. -/
def answer (s : ImportState C numberOf) (tx : ℕ) (response : EngineResponse) :
    ImportState C numberOf :=
  { s with
    pendingImports := Function.update s.pendingImports tx
      ((s.pendingImports tx).map fun fut => { fut with phase := .answered response }) }

end ImportState

variable (C numberOf P)

/-- The service, with an engine that processes the messages in order. -/
def importService : System (ImportState C numberOf) (ImportLabel C numberOf P) where
  init s := s.fromNetwork = [] ∧ s.toNetwork = [] ∧ s.pendingImports = (fun _ => none) ∧
    s.engine = [] ∧ s.sent = []
  step s l s' :=
    match l with
    | .announce block peer => s' = { s with fromNetwork := s.fromNetwork ++ [(block, peer)] }
    | .onNewBlock => ∃ block peer rest, s.fromNetwork = (block, peer) :: rest ∧
        s' = ImportState.onNewBlock { s with fromNetwork := rest } block peer
    | .poll id provider => ∃ fut, s.pendingImports id = some fut ∧ provider.Reads s.chain ∧
        s' = s.poll id fut provider
    | .process response chain => ∃ message rest, s.engine = message :: rest ∧
        message.Moves s.chain chain ∧
        s' = { s.answer message.tx response with engine := rest, chain := chain }

variable {C numberOf P}

/-! ## Fork choices -/

/-- Each fork choice is at least as good as all those sent before it. -/
def ForkChoiceMonotone (s : ImportState C numberOf) : Prop :=
  s.sent.Pairwise fun earlier later =>
    AtLeast numberOf later.headBlockHash earlier.headBlockHash

/-- When the head to follow is chosen, every fork choice sent before that is better than the
    announced block has been adopted: the head of the chain is at least as good. -/
def BetterAdopted (s : ImportState C numberOf) : ImportLabel C numberOf P → Prop
  | .poll id provider => ∀ fut current, s.pendingImports id = some fut →
      fut.call = .updateForkChoice → fut.phase = .start →
      provider.bestBlockNumber = .ok s.chain.best →
      provider.blockHash s.chain.best = .ok (some current) →
      ∀ state ∈ s.sent, ¬ AtLeast numberOf fut.block.hash state.headBlockHash →
        AtLeast numberOf current state.headBlockHash
  | _ => True

namespace ImportState

variable {s : ImportState C numberOf} {provider : Provider P}

/-- A poll sends no fork choice, unless it is the first one of the second future of a block,
    and the provider answers. It then sends the better of the block and the head of the
    chain. -/
theorem poll_sent (id : ℕ) (fut : ImportFut C numberOf) (hreads : provider.Reads s.chain) :
    (s.poll id fut provider).sent = s.sent ∧
        (fut.call = .updateForkChoice → fut.phase = .start →
          provider.bestBlockNumber = .ok s.chain.best →
          ∀ current, provider.blockHash s.chain.best ≠ .ok (some current)) ∨
      fut.call = .updateForkChoice ∧ fut.phase = .start ∧ ∃ head current,
        provider.bestBlockNumber = .ok s.chain.best ∧
        provider.blockHash s.chain.best = .ok (some current) ∧
        (∀ other, AtLeast numberOf head other ↔
          AtLeast numberOf fut.block.hash other ∨ AtLeast numberOf current other) ∧
        (s.poll id fut provider).sent = s.sent ++ [⟨head, head, head⟩] := by
  obtain ⟨call, block, peer, phase⟩ := fut
  cases phase with
  | answered response => exact .inl ⟨rfl, fun _ h => nomatch h⟩
  | awaiting => exact .inl ⟨rfl, fun _ h => nomatch h⟩
  | start =>
    cases call with
    | newPayload => exact .inl ⟨List.append_nil _, fun h => nomatch h⟩
    | updateForkChoice =>
      rw [poll, ImportFut.poll]
      cases hhead : canonicalHead provider block.hash block.number with
      | error error =>
        -- The provider fails, or has no head.
        refine .inl ⟨rfl, fun _ _ hbest current hhash => ?_⟩
        rw [canonicalHead_eq_ok.2 ⟨_, hbest, hhash, rfl⟩] at hhead
        cases hhead
      | ok heads =>
        obtain ⟨head, current⟩ := heads
        obtain ⟨best, hbest, hhash, rfl⟩ := canonicalHead_eq_ok.1 hhead
        obtain rfl := hreads.best hbest
        refine .inr ⟨rfl, rfl, _, current, hbest, hhash, fun other => ?_, rfl⟩
        have hcurrent : numberOf current = s.chain.best :=
          s.chain.number_eq (hreads.hash hhash).symm
        rw [← hcurrent, BlockMsg.number, ← block.number_eq]
        exact atLeast_followed_iff _ _ _

end ImportState

/-- A step keeps the fork choices from going back exactly when a better one has been
    adopted. -/
theorem forkChoiceMonotone_step {s s' : ImportState C numberOf} {l : ImportLabel C numberOf P}
    (h : (importService C numberOf P).step s l s') :
    ForkChoiceMonotone s' ↔ ForkChoiceMonotone s ∧ BetterAdopted s l := by
  cases l with
  | announce block peer =>
    obtain rfl := h
    exact (and_iff_left trivial).symm
  | onNewBlock =>
    obtain ⟨block, peer, rest, -, rfl⟩ := h
    exact (and_iff_left trivial).symm
  | process response chain =>
    obtain ⟨message, rest, -, -, rfl⟩ := h
    exact (and_iff_left trivial).symm
  | poll id provider =>
    obtain ⟨fut, hfut, hreads, rfl⟩ := h
    rcases ImportState.poll_sent id fut hreads with
      ⟨hsent, hnone⟩ | ⟨hcall, hphase, head, current, hbest, hhash, hbetter, hsent⟩
    · -- Nothing is sent, as there is no head to choose.
      rw [ForkChoiceMonotone, hsent]
      refine (and_iff_left ?_).symm
      intro fut' current hfut' hcall hphase hbest hhash
      rw [hfut, Option.some.injEq] at hfut'
      subst hfut'
      exact absurd hhash (hnone hcall hphase hbest current)
    · -- The head sent is as good as an earlier one if the block or the head of the chain is, so
      -- that only the earlier ones better than the block matter.
      rw [ForkChoiceMonotone, hsent, List.pairwise_append]
      refine and_congr_right fun _ => ⟨fun ⟨_, h⟩ => ?_, fun h => ⟨List.pairwise_singleton _ _, ?_⟩⟩
      · intro fut' current' hfut' _ _ _ hhash' state hstate hworse
        rw [hfut, Option.some.injEq] at hfut'
        subst hfut'
        rw [hhash, Except.ok.injEq, Option.some.injEq] at hhash'
        subst hhash'
        exact ((hbetter _).1 (h state hstate _ List.mem_cons_self)).resolve_left hworse
      · intro state hstate later hlater
        obtain rfl := List.mem_singleton.1 hlater
        refine (hbetter _).2 (or_iff_not_imp_left.2 ?_)
        exact h fut current hfut hcall hphase hbest hhash state hstate

/-- The fork choices of a run never go back from a better block if and only if, whenever a
    head to follow is chosen, every better fork choice sent before has been adopted. -/
theorem forkChoice_monotone_iff {s₀ s : ImportState C numberOf}
    {ls : List (ImportLabel C numberOf P)} (hinit : (importService C numberOf P).init s₀)
    (hrun : Run (importService C numberOf P) s₀ ls s) :
    ForkChoiceMonotone s ↔ Run ((importService C numberOf P).guarded BetterAdopted) s₀ ls s := by
  refine System.run_guarded_iff hrun ?_ fun _ _ _ => forkChoiceMonotone_step
  rw [ForkChoiceMonotone, hinit.2.2.2.2]
  exact .nil

end Service

/-! Blocks `10` and `9` are announced at once, when the head of the chain is block `5`. -/

/-- The hash of the block `5`. -/
def hash5 : B256 := 0xc4a1888d3b8fa4ff13761386c90410bedb9d94c80528193c4860773289b0109e

/-- The hash of the block `9`. -/
def hash9 : B256 := 0x4542edd51301fb44fd3097684499b2677fc125ca3453705109634728fb9f6624

/-- The hash of the block `10`. -/
def hash10 : B256 := 0x4c66fe5b91bfdaa33e7b6d16c98568ccf6708c7a23217e2e857c7e87f62bde26

/-- The functions of the dependencies, on the headers of the blocks. -/
def importCrypto : Crypto where
  txHash _ := 0
  recoverSigner _ := none
  hashSlow header :=
    if header.number = 10 then hash10 else if header.number = 9 then hash9 else hash5
  logBloom _ := 0
  encodeTx _ := []
  encodeReceipt _ _ := []
  encodeWithdrawal _ := []
  orderedTrieRoot _ := emptyRootHash
  requestsHash _ := 0

/-- The numbers of the blocks, by their hashes. -/
def importNumber (hash : B256) : UInt64 :=
  if hash = hash10 then 10 else if hash = hash9 then 9 else 5

/-- An empty block. -/
def emptyBlock (number : UInt64) : HlBlock where
  header := ⟨{ (default : Header) with number := number }, ⟨0, 0⟩⟩
  body := ⟨⟨[], [], none⟩, none, none, none⟩

/-- A message with the block `9`. -/
def block9 : BlockMsg importCrypto importNumber := ⟨emptyBlock 9, by decide⟩

/-- A message with the block `10`. -/
def block10 : BlockMsg importCrypto importNumber := ⟨emptyBlock 10, by decide⟩

/-- A chain with the block `5`, and the provider that reads it. -/
def chain5 : Chain importNumber where
  best := 5
  hashes n := if n = 5 then some hash5 else none
  number_eq {n h} heq := by
    split at heq
    · next hn =>
      cases heq
      rw [hn]
      decide
    · cases heq

/-- The provider of that chain. -/
def provider5 : Provider Unit := ⟨.ok 5, fun n => .ok (chain5.hashes n)⟩

/-- The service before the blocks are announced. -/
def importState5 : ImportState importCrypto importNumber where
  fromNetwork := []
  toNetwork := []
  pendingImports _ := none
  nextImport := 0
  engine := []
  chain := chain5
  sent := []

theorem reads_provider5 : provider5.Reads chain5 :=
  ⟨fun h => by cases h; rfl, fun h => by cases h; rfl⟩

/-- The imports of two blocks announced at once are polled in turn. -/
def pollBoth (first second : BlockMsg importCrypto importNumber) :
    List (ImportLabel importCrypto importNumber Unit) :=
  [.announce first 0, .announce second 0, .onNewBlock, .onNewBlock, .poll 0 provider5,
    .poll 1 provider5, .poll 2 provider5, .poll 3 provider5]

/-- The lower block is announced first. -/
theorem forkChoice_monotone_inOrder : ∃ s,
    s.sent = [⟨hash9, hash9, hash9⟩, ⟨hash10, hash10, hash10⟩] ∧
    Run ((importService importCrypto importNumber Unit).guarded BetterAdopted) importState5
      (pollBoth block9 block10) s := by
  have hrun : Run (importService importCrypto importNumber Unit) importState5
      (pollBoth block9 block10) _ :=
    .cons rfl <| .cons rfl <| .cons ⟨_, _, _, rfl, rfl⟩ <| .cons ⟨_, _, _, rfl, rfl⟩ <|
      .cons ⟨_, rfl, reads_provider5, rfl⟩ <| .cons ⟨_, rfl, reads_provider5, rfl⟩ <|
      .cons ⟨_, rfl, reads_provider5, rfl⟩ <| .cons ⟨_, rfl, reads_provider5, rfl⟩ .nil
  refine ⟨_, rfl, (forkChoice_monotone_iff ⟨rfl, rfl, rfl, rfl, rfl⟩ hrun).1 ?_⟩
  change List.Pairwise (fun earlier later : ForkchoiceState =>
      AtLeast importNumber later.headBlockHash earlier.headBlockHash)
    [⟨hash9, hash9, hash9⟩, ⟨hash10, hash10, hash10⟩]
  decide

/-- The higher block is announced first. -/
theorem forkChoice_goes_back : ∃ s,
    (importService importCrypto importNumber Unit).init importState5 ∧
    Run (importService importCrypto importNumber Unit) importState5 (pollBoth block10 block9) s ∧
    s.sent = [⟨hash10, hash10, hash10⟩, ⟨hash9, hash9, hash9⟩] ∧ ¬ ForkChoiceMonotone s := by
  refine ⟨_, ⟨rfl, rfl, rfl, rfl, rfl⟩,
    .cons rfl <| .cons rfl <| .cons ⟨_, _, _, rfl, rfl⟩ <| .cons ⟨_, _, _, rfl, rfl⟩ <|
      .cons ⟨_, rfl, reads_provider5, rfl⟩ <| .cons ⟨_, rfl, reads_provider5, rfl⟩ <|
      .cons ⟨_, rfl, reads_provider5, rfl⟩ <| .cons ⟨_, rfl, reads_provider5, rfl⟩ .nil, rfl, ?_⟩
  change ¬ List.Pairwise (fun earlier later : ForkchoiceState =>
      AtLeast importNumber later.headBlockHash earlier.headBlockHash)
    [⟨hash10, hash10, hash10⟩, ⟨hash9, hash9, hash9⟩]
  decide

end Nanoreth
