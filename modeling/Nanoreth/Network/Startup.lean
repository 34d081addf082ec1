import Nanoreth.Network.BlockImport
import Nanoreth.Network.Rlp
import Nanoreth.PseudoPeer.Poller
import Nanoreth.PseudoPeer.Service

/-!
# The start of the node

When the node starts, it runs a task that imports blocks and, if a block source is configured, one
that feeds the blocks of the source to the node as a pseudo peer (`node/network/mod.rs`,
`network_config` and `build_network`; `pseudo_peer/mod.rs`, `start_pseudo_peer`).

* The task that imports blocks waits for the engine, which is there once the node is launched, and
  then for the hash of the latest block of the source (`Trigger`). It sends the engine a fork choice
  with this hash, and starts the import service when it is answered. Without a source, the channel
  of the hash is closed, and the service starts at once.
* The pseudo peer finds and reads the latest block of the source, sends its hash, and starts its own
  network. When the first session with the node is active, the block poller is told to start, once.
  The blocks it fetches are announced, and the requests of the node are answered.

All tasks take their steps in any order. Nothing uses the store before the latest block is read, so
that this is a hardcoded block or comes from the source. The first fork choice is for this block,
nothing reaches the engine before it, and nothing is announced before a session is active
(`startup_order`).

The sender of the hash lives as long as the pseudo peer, however, and the pseudo peer does not end.
If the latest block is not found or not read at the start, the hash is never sent, and the channel
not closed either: the import service does not start as long as the pseudo peer runs, and no block
that is announced is imported (`imports_iff`).
-/

namespace Nanoreth

open Transition Partial

/-- The channel for the hash of the latest block. -/
inductive Trigger
  | waiting
  | sent (hash : B256)
  | closed
  deriving DecidableEq

/-- The sender is gone. What was sent is still there. -/
def Trigger.drop : Trigger → Trigger
  | .waiting => .closed
  | trigger => trigger

/-- What the task that imports blocks is doing. -/
inductive ImportTask
  | awaitingEngine
  | awaitingTrigger
  | awaitingForkchoice (hash : B256)
  | serving
  deriving DecidableEq

/-- What the task of the pseudo peer is doing. -/
inductive PeerTask
  | findingLatest
  | readingLatest (latest : UInt64)
  | creatingNetwork
  /-- The event loop. No session was active if it is the first one. -/
  | serving (first : Bool)
  | failed
  deriving DecidableEq

/-- The pseudo peer is looking for the latest block, or reading it. -/
def PeerTask.Reads : PeerTask → Prop
  | .findingLatest | .readingLatest _ => True
  | _ => False

section Node

variable (C : Crypto) (numberOf : B256 → UInt64)

/-- The tasks of the node, and what they share. -/
structure Node where
  launched : Bool
  importTask : ImportTask
  trigger : Trigger
  /-- There is no pseudo peer without a block source. -/
  peerTask : Option PeerTask
  /-- The network of the pseudo peer is running. -/
  networkUp : Bool
  /-- The signals to start that the poller has not received. -/
  signals : ℕ
  poller : BlockPoller
  spotCache : SpotCache
  announcements : List HlNewBlock
  imports : ImportState C numberOf

/-- A step of one of the tasks that start the node. -/
inductive StartupLabel (ε : Type)
  | launch
  | recvEngine
  | recvTrigger
  | findLatest (latest : Option UInt64)
  | readLatest (source : BlockSource ε)
  /-- The source panics when the latest block is looked for or read. -/
  | panicLatest
  | createNetwork (created : Bool)
  | event (activePeerSession : Bool)
  | request (peer : PseudoPeer ε) (request : EthRequest)
  | poller (label : PollerLabel ε)
  | announce (peer : PseudoPeer ε)

/-- A step of the node. The engine answers the first fork choice, and the import service takes its
    own steps. -/
inductive NodeLabel (P ε : Type)
  | startup (label : StartupLabel ε)
  | answer (chain : Chain numberOf)
  | imports (label : ImportLabel C numberOf P)

variable {C numberOf} {P ε : Type}

namespace Node

/-- The fork choice that follows one block. -/
def forkchoice (hash : B256) : ForkchoiceState := ⟨hash, hash, hash⟩

/-- The node, when the store and the cache of the pseudo peer have been used. -/
def share (s : Node C numberOf) (store : BlockStore) (spotCache : SpotCache) : Node C numberOf :=
  { s with poller := { s.poller with store := store }, spotCache := spotCache }

/-- The pseudo peer returns or panics, and drops what it holds. -/
def failPeer (s : Node C numberOf) : Node C numberOf :=
  { s with peerTask := some .failed, trigger := s.trigger.drop }

/-- Receives the hash of the latest block, or finds that there will be none. -/
def recvTrigger (s : Node C numberOf) : Option (Node C numberOf) :=
  match s.trigger with
  -- The task waits until the hash is sent, or the sender is dropped.
  | .waiting => none
  | .sent hash => some
    { s with
      importTask := .awaitingForkchoice hash
      imports := { s.imports with sent := s.imports.sent ++ [forkchoice hash] } }
  | .closed => some { s with importTask := .serving }

/-- Goes on to read the latest block. Without one, a network is created at once. -/
def findLatest (s : Node C numberOf) (latest : Option UInt64) : Option (Node C numberOf) :=
  if s.peerTask = some .findingLatest then
    some { s with peerTask := some (latest.elim .creatingNetwork .readingLatest) }
  else none

/-- Reads the latest block, and sends its hash. A block that cannot be read is only logged. -/
def readLatest (s : Node C numberOf) (source : BlockSource ε) : Option (Node C numberOf) :=
  match s.peerTask with
  | some (.readingLatest latest) =>
    match s.poller.store.getByNumber source latest with
    | (.ok block, store) => some { s.share store s.spotCache with
        peerTask := some .creatingNetwork, trigger := .sent block.hash }
    -- The error is ignored, and no hash is sent.
    | (.error _, store) => some { s.share store s.spotCache with
        peerTask := some .creatingNetwork }
  | _ => none

/-- The source panics when the latest block is looked for or read. -/
def panicLatest (s : Node C numberOf) : Option (Node C numberOf) :=
  match s.peerTask with
  | some .findingLatest | some (.readingLatest _) => some s.failPeer
  | _ => none

/-- Creates the network, and enters the event loop. -/
def createNetwork (s : Node C numberOf) (created : Bool) : Option (Node C numberOf) :=
  if s.peerTask = some .creatingNetwork then
    if created then some { s with peerTask := some (.serving true), networkUp := true }
    else some s.failPeer
  else none

/-- Tells the poller to start. This fails if the poller is gone, and waits if it has not received an
    earlier signal. -/
def sendStart (s : Node C numberOf) : Option (Node C numberOf) :=
  if s.poller.phase = .stopped then some s.failPeer
  else if s.signals = 0 then some { s with signals := 1, peerTask := some (.serving false) }
  else none

/-- Handles an event of the network. The poller is told to start at the first active session. -/
def onEvent (s : Node C numberOf) (activePeerSession : Bool) : Option (Node C numberOf) :=
  match s.peerTask with
  | some (.serving first) =>
    if s.networkUp then if activePeerSession && first then s.sendStart else some s else none
  | _ => none

/-- Handles a request. An error is only logged. -/
def onRequest (s : Node C numberOf) (peer : PseudoPeer ε) (request : EthRequest) :
    Option (Node C numberOf) :=
  match s.peerTask with
  | some (.serving _) =>
    if s.networkUp then
      match peer.processEthRequest s.poller.store s.spotCache request with
      -- A panic of a handler ends the task; errors are only logged.
      | ⟨_, .error (.halt _), store, spotCache⟩ => some (s.share store spotCache).failPeer
      | ⟨_, _, store, spotCache⟩ => some (s.share store spotCache)
    else none
  | _ => none

/-- The poller receives the signal to start, or finds that there will be none, or polls a block. -/
def onPoller (debugCutoffHeight : Option UInt64) (s : Node C numberOf) :
    PollerLabel ε → Option (Node C numberOf)
  | .start true latest =>
    -- The poller waits for the signal to start.
    if s.signals = 0 then none
    else (s.poller.next debugCutoffHeight (.start (ε := ε) true latest)).map fun poller =>
      { s with poller := poller, signals := s.signals - 1 }
  | .start false latest =>
    if s.peerTask = some .failed ∧ s.signals = 0 then
      (s.poller.next debugCutoffHeight (.start (ε := ε) false latest)).map fun poller =>
        { s with poller := poller }
    else none
  | .poll source received =>
    (s.poller.next debugCutoffHeight (.poll source received)).map fun poller =>
      { s with poller := poller }
  | .share _ => none

/-- The announcement of a block. The total difficulty is the difficulty of the block. -/
def newBlock (peer : PseudoPeer ε) (block : BlockAndReceipts) : SpotM HlNewBlock := do
  let rethBlock ← peer.toRethBlock block
  if rethBlock.header.inner.difficulty.toNat < 2 ^ 128 then
    pure ⟨rethBlock, rethBlock.header.inner.difficulty.setWidth 128⟩
  else throw (.panic "Uint conversion error: Value is too large for Uint<128>")

/-- Takes the next block the poller has sent, indexes and announces it. The network of the pseudo
    peer is gone if this panics. -/
def announce (s : Node C numberOf) (peer : PseudoPeer ε) : Option (Node C numberOf) :=
  match s.poller.sent[s.announcements.length]? with
  | none => none
  | some (_, block) =>
    -- The block is indexed before it is converted.
    let store := s.poller.store.indexBlock block
    match newBlock peer block s.spotCache with
    | .ok (announcement, spotCache) => some { s.share store spotCache with
        announcements := s.announcements ++ [announcement] }
    | .error _ => some { s.share store s.spotCache with networkUp := false }

/-- The node after a step of a task that starts it, if it can be taken. -/
def next (debugCutoffHeight : Option UInt64) (s : Node C numberOf) :
    StartupLabel ε → Option (Node C numberOf)
  | .launch => if s.launched then none else some { s with launched := true }
  | .recvEngine =>
    if s.importTask = .awaitingEngine ∧ s.launched then
      some { s with importTask := .awaitingTrigger }
    else none
  | .recvTrigger => if s.importTask = .awaitingTrigger then s.recvTrigger else none
  | .findLatest latest => s.findLatest latest
  | .readLatest source => s.readLatest source
  | .panicLatest => s.panicLatest
  | .createNetwork created => s.createNetwork created
  | .event activePeerSession => s.onEvent activePeerSession
  | .request peer request => s.onRequest peer request
  | .poller label => s.onPoller debugCutoffHeight label
  | .announce peer => if s.networkUp then s.announce peer else none

/-- The announcements of the network reach the import service at any time. It takes no other steps
    before it serves. -/
def CanImport (s : Node C numberOf) : ImportLabel C numberOf P → Prop
  | .announce _ _ => True
  | _ => s.importTask = .serving

variable (C numberOf P ε)

/-- The node from its start on. -/
def startup (debugCutoffHeight : Option UInt64) :
    System (Node C numberOf) (NodeLabel C numberOf P ε) where
  init s := s.launched = false ∧ s.importTask = .awaitingEngine ∧
    -- The node is started with or without a pseudo peer.
    (s.peerTask = none ∧ s.trigger = .closed ∨
      s.peerTask = some .findingLatest ∧ s.trigger = .waiting) ∧
    s.networkUp = false ∧ s.signals = 0 ∧ s.poller.phase = .suspended ∧ s.poller.sent = [] ∧
    s.announcements = [] ∧ (importService C numberOf P).init s.imports
  step s l s' :=
    match l with
    | .startup label => s.next debugCutoffHeight label = some s'
    | .answer chain => ∃ hash, s.importTask = .awaitingForkchoice hash ∧
        (EngineMessage.forkchoiceUpdated (forkchoice hash) 0 : EngineMessage C numberOf).Moves
          s.imports.chain chain ∧
        s' = { s with importTask := .serving, imports := { s.imports with chain := chain } }
    | .imports label => s.CanImport label ∧ ∃ imports,
        (importService C numberOf P).step s.imports label imports ∧
          s' = { s with imports := imports }

variable {C numberOf P ε} {cutoff : Option UInt64} {s s' : Node C numberOf}
  {label : StartupLabel ε}

/-! ## What a step does -/

/-- What each step does. -/
inductive Moves (s : Node C numberOf) : StartupLabel ε → Node C numberOf → Prop
  -- The node and the import task.
  | launch : Moves s .launch { s with launched := true }
  | recvEngine (htask : s.importTask = .awaitingEngine) (hlaunched : s.launched = true) :
      Moves s .recvEngine { s with importTask := .awaitingTrigger }
  | recvHash {hash : B256} (htask : s.importTask = .awaitingTrigger)
      (htrigger : s.trigger = .sent hash) :
      Moves s .recvTrigger { s with
        importTask := .awaitingForkchoice hash
        imports := { s.imports with sent := s.imports.sent ++ [forkchoice hash] } }
  | recvClosed (htask : s.importTask = .awaitingTrigger) (htrigger : s.trigger = .closed) :
      Moves s .recvTrigger { s with importTask := .serving }
  -- The task of the pseudo peer, which may fail at any time.
  | findLatest {latest : Option UInt64} (hpeer : s.peerTask = some .findingLatest) :
      Moves s (.findLatest latest)
        { s with peerTask := some (latest.elim .creatingNetwork .readingLatest) }
  | readLatest {source : BlockSource ε} {latest : UInt64} {block : BlockAndReceipts}
      {store : BlockStore} (hpeer : s.peerTask = some (.readingLatest latest))
      (hget : s.poller.store.getByNumber source latest = (.ok block, store)) :
      Moves s (.readLatest source) { s.share store s.spotCache with
        peerTask := some .creatingNetwork, trigger := .sent block.hash }
  | readFailed {source : BlockSource ε} {latest : UInt64} {store : BlockStore}
      (hpeer : s.peerTask = some (.readingLatest latest)) :
      Moves s (.readLatest source)
        { s.share store s.spotCache with peerTask := some .creatingNetwork }
  | createNetwork (hpeer : s.peerTask = some .creatingNetwork) :
      Moves s (.createNetwork true) { s with peerTask := some (.serving true), networkUp := true }
  | fail {label : StartupLabel ε} (store : BlockStore) (spotCache : SpotCache) :
      Moves s label (s.share store spotCache).failPeer
  -- The network and the poller.
  | sendStart (hpeer : s.peerTask = some (.serving true)) (hphase : s.poller.phase ≠ .stopped)
      (hsignals : s.signals = 0) :
      Moves s (.event true) { s with signals := 1, peerTask := some (.serving false) }
  | share {label : StartupLabel ε} {first : Bool} (store : BlockStore) (spotCache : SpotCache)
      (hpeer : s.peerTask = some (.serving first)) : Moves s label (s.share store spotCache)
  | startPoller {latest : Option UInt64} (hsignals : s.signals ≠ 0)
      (hphase : s.poller.phase = .suspended) :
      Moves s (.poller (.start true latest)) { s with
        poller := { s.poller with phase := .start true latest }, signals := s.signals - 1 }
  | stopPoller {latest : Option UInt64} (hpeer : s.peerTask = some .failed)
      (hphase : s.poller.phase = .suspended) :
      Moves s (.poller (.start false latest)) { s with
        poller := { s.poller with phase := .stopped } }
  | poll {label : PollerLabel ε} {n : UInt64} {poller : BlockPoller}
      (hphase : s.poller.phase = .polling n) (hphase' : poller.phase ≠ .suspended) :
      Moves s (.poller label) { s with poller := poller }
  | announce {peer : PseudoPeer ε} {store : BlockStore} {spotCache : SpotCache}
      {announcement : HlNewBlock} (hup : s.networkUp = true)
      (hsent : s.announcements.length < s.poller.sent.length) :
      Moves s (.announce peer) { s.share store spotCache with
        announcements := s.announcements ++ [announcement] }
  | networkDown {peer : PseudoPeer ε} {store : BlockStore} (hup : s.networkUp = true) :
      Moves s (.announce peer) { s.share store s.spotCache with networkUp := false }

/-- Reading the latest block is one of the moves. -/
theorem moves_readLatest {source : BlockSource ε} (h : s.readLatest source = some s') :
    s.Moves (.readLatest source) s' := by
  unfold readLatest at h
  split at h
  · next latest hpeer =>
    split at h
    · next hget =>
      cases h
      exact .readLatest hpeer hget
    · cases h
      exact .readFailed hpeer
  · cases h

/-- An event of the network is one of the moves. -/
theorem moves_event {active : Bool} (h : s.onEvent active = some s') :
    s.Moves (.event (ε := ε) active) s' := by
  unfold onEvent at h
  split at h
  · next first hpeer =>
    split_ifs at h with hup hfirst
    · rw [Bool.and_eq_true] at hfirst
      obtain ⟨rfl, rfl⟩ := hfirst
      unfold sendStart at h
      split_ifs at h with hphase hsignals
      · cases h
        exact .fail s.poller.store s.spotCache
      · cases h
        exact .sendStart hpeer hphase hsignals
    · cases h
      exact .share s.poller.store s.spotCache hpeer
  · cases h

/-- A request is one of the moves. -/
theorem moves_request {peer : PseudoPeer ε} {request : EthRequest}
    (h : s.onRequest peer request = some s') : s.Moves (.request peer request) s' := by
  unfold onRequest at h
  split at h
  · next first hpeer =>
    split_ifs at h
    split at h
    · cases h
      exact .fail _ _
    · cases h
      exact .share _ _ hpeer
  · cases h

/-- The poller starts only once. -/
theorem of_next_start {poller poller' : BlockPoller} {signal : Bool} {latest : Option UInt64}
    (h : poller.next (ε := ε) cutoff (.start signal latest) = some poller') :
    poller.phase = .suspended ∧ poller' = { poller with phase := .start signal latest } := by
  simp only [BlockPoller.next] at h
  split at h
  · next hphase => exact ⟨hphase, (Option.some.inj h).symm⟩
  · cases h

/-- The poller polls once it has started, and does not go back. -/
theorem of_next_poll {poller poller' : BlockPoller} {source : BlockSource ε} {received : Bool}
    (h : poller.next cutoff (.poll source received) = some poller') :
    (∃ n, poller.phase = .polling n) ∧ poller'.phase ≠ .suspended := by
  simp only [BlockPoller.next] at h
  split at h
  · next n hphase =>
    refine ⟨⟨n, hphase⟩, ?_⟩
    split at h
    · split_ifs at h <;> cases h <;> exact fun hsuspended => by cases hsuspended
    · cases h
      exact fun hsuspended => by cases hsuspended
  · cases h

/-- A step of the poller is one of the moves. -/
theorem moves_poller {label : PollerLabel ε} (h : s.onPoller cutoff label = some s') :
    s.Moves (.poller label) s' := by
  cases label with
  | start signal latest =>
    cases signal with
    | true =>
      simp only [onPoller] at h
      split_ifs at h with hsignals
      obtain ⟨poller, hnext, rfl⟩ := Option.map_eq_some_iff.1 h
      obtain ⟨hphase, rfl⟩ := of_next_start hnext
      exact .startPoller hsignals hphase
    | false =>
      simp only [onPoller] at h
      split_ifs at h with hfailed
      obtain ⟨poller, hnext, rfl⟩ := Option.map_eq_some_iff.1 h
      obtain ⟨hphase, rfl⟩ := of_next_start hnext
      exact .stopPoller hfailed.1 hphase
  | poll source received =>
    obtain ⟨poller, hnext, rfl⟩ := Option.map_eq_some_iff.1 h
    obtain ⟨⟨n, hphase⟩, hphase'⟩ := of_next_poll hnext
    exact .poll hphase hphase'
  | share event => cases h

/-- A panic before the latest block is read is one of the moves. -/
theorem moves_panicLatest (h : s.panicLatest = some s') :
    s.Moves (.panicLatest : StartupLabel ε) s' := by
  unfold panicLatest at h
  split at h
  · cases h
    exact .fail s.poller.store s.spotCache
  · cases h
    exact .fail s.poller.store s.spotCache
  · cases h

/-- An announcement is one of the moves. -/
theorem moves_announce {peer : PseudoPeer ε} (hup : s.networkUp = true)
    (h : s.announce peer = some s') :
    s.Moves (.announce peer) s' := by
  unfold announce at h
  split at h
  · cases h
  · next block hblock =>
    have hsent : s.announcements.length < s.poller.sent.length :=
      (List.getElem?_eq_some_iff.1 hblock).1
    split at h
    · cases h
      exact .announce hup hsent
    · cases h
      exact .networkDown hup

/-- Every step of the pseudo peer is one of the moves. -/
theorem moves_of_next (h : s.next cutoff label = some s') : s.Moves label s' := by
  -- Which move a step is, label by label; the longer ones have lemmas of their own.
  cases label with
  | launch =>
    simp only [next] at h
    split_ifs at h
    cases h
    exact .launch
  | recvEngine =>
    simp only [next] at h
    split_ifs at h with hengine
    cases h
    exact .recvEngine hengine.1 hengine.2
  | recvTrigger =>
    simp only [next] at h
    split_ifs at h with htask
    unfold recvTrigger at h
    split at h
    · cases h
    · next hash htrigger =>
      cases h
      exact .recvHash htask htrigger
    · next htrigger =>
      cases h
      exact .recvClosed htask htrigger
  | findLatest latest =>
    simp only [next, Node.findLatest] at h
    split_ifs at h with hpeer
    cases h
    exact .findLatest hpeer
  | readLatest source => exact moves_readLatest h
  | panicLatest => exact moves_panicLatest h
  | createNetwork created =>
    simp only [next, Node.createNetwork] at h
    split_ifs at h with hpeer hcreated
    · cases h
      cases hcreated
      exact .createNetwork hpeer
    · cases h
      exact .fail s.poller.store s.spotCache
  | event active => exact moves_event h
  | request peer request => exact moves_request h
  | poller label => exact moves_poller h
  | announce peer =>
    simp only [next] at h
    split_ifs at h with hup
    exact moves_announce hup h

/-! ## The order of the start -/

/-- The fork choices that were sent stay sent. -/
theorem sent_isPrefixOf {imports imports' : ImportState C numberOf} {l : ImportLabel C numberOf P}
    (h : (importService C numberOf P).step imports l imports') :
    imports.sent <+: imports'.sent := by
  cases l with
  | announce block peer =>
    cases h
    exact List.prefix_rfl
  | onNewBlock =>
    obtain ⟨block, peer, rest, -, rfl⟩ := h
    exact List.prefix_rfl
  | poll id provider =>
    obtain ⟨fut, -, -, rfl⟩ := h
    unfold ImportState.poll
    split
    · exact List.prefix_rfl
    · exact List.prefix_rfl
    · exact List.prefix_append _ _
  | process response chain =>
    obtain ⟨message, rest, -, -, rfl⟩ := h
    exact List.prefix_rfl

/-- What is known of the tasks from the start on. -/
structure InOrder (s : Node C numberOf) : Prop where
  launched : s.importTask ≠ .awaitingEngine → s.launched = true
  idle : s.importTask ≠ .serving →
    s.imports.engine = [] ∧ s.imports.pendingImports = fun _ => none
  unsent : s.importTask = .awaitingEngine ∨ s.importTask = .awaitingTrigger → s.imports.sent = []
  awaiting : ∀ hash, s.importTask = .awaitingForkchoice hash →
    s.trigger = .sent hash ∧ s.imports.sent = [forkchoice hash]
  serving : s.importTask = .serving →
    s.trigger = .closed ∨ ∃ hash, s.trigger = .sent hash ∧ [forkchoice hash] <+: s.imports.sent
  closed : s.trigger = .closed → s.peerTask = none ∨ s.peerTask = some .failed
  waiting : ∀ latest, s.peerTask = some .findingLatest ∨ s.peerTask = some (.readingLatest latest) →
    s.trigger = .waiting
  first : s.peerTask ≠ some (.serving false) → s.peerTask ≠ some .failed →
    s.signals = 0 ∧ s.poller.phase = .suspended
  up : s.networkUp = true → s.peerTask = some .failed ∨ ∃ first, s.peerTask = some (.serving first)

/-- The trigger is not closed while the task of the peer goes on. -/
theorem InOrder.not_closed (hs : s.InOrder) {task : PeerTask} (hpeer : s.peerTask = some task)
    (htask : task ≠ .failed) : s.trigger ≠ .closed := by
  intro hclosed
  rcases hs.closed hclosed with h | h
  · rw [hpeer] at h
    cases h
  · rw [hpeer] at h
    exact htask (Option.some.inj h)

theorem drop_of_ne {trigger : Trigger} (h : trigger ≠ .waiting) : trigger.drop = trigger := by
  cases trigger with
  | waiting => exact absurd rfl h
  | sent hash => rfl
  | closed => rfl

theorem eq_sent_of_drop {trigger : Trigger} {hash : B256} (h : trigger.drop = .sent hash) :
    trigger = .sent hash := by
  cases trigger with
  | waiting => cases h
  | sent hash' => exact h
  | closed => cases h

/-- The phase of the pseudo peer changes, without a change of the trigger, and before the event loop
    is left or the poller has started. -/
theorem InOrder.setPeer (hs : s.InOrder) {task : PeerTask} (task' : PeerTask)
    (hpeer : s.peerTask = some task) (htask : task ≠ .failed)
    (hwaiting : ∀ latest, task' = .findingLatest ∨ task' = .readingLatest latest →
      s.trigger = .waiting)
    (hfirst : task' ≠ .serving false → task ≠ .serving false)
    (hup : s.networkUp = true → ∃ first, task' = .serving first) :
    { s with peerTask := some task' }.InOrder where
  launched := hs.launched
  idle := hs.idle
  unsent := hs.unsent
  awaiting := hs.awaiting
  serving := hs.serving
  closed hclosed := absurd hclosed (hs.not_closed hpeer htask)
  waiting latest h := hwaiting latest (h.imp Option.some.inj Option.some.inj)
  first h _ := by
    refine hs.first ?_ ?_
    · rw [hpeer]
      exact fun heq => hfirst (fun heq' => h (congrArg some heq')) (Option.some.inj heq)
    · rw [hpeer]
      exact fun heq => htask (Option.some.inj heq)
  up h := .inr ((hup h).imp fun _ heq => congrArg some heq)

/-- The network is down as long as the pseudo peer has not entered its event loop. -/
theorem InOrder.not_up (hs : s.InOrder) {task : PeerTask} (hpeer : s.peerTask = some task)
    (hfailed : task ≠ .failed) (hserving : ∀ first, task ≠ .serving first) :
    s.networkUp ≠ true := by
  intro hup
  obtain h | ⟨first, h⟩ := hs.up hup
  · exact hfailed (Option.some.inj (hpeer.symm.trans h))
  · exact hserving first (Option.some.inj (hpeer.symm.trans h))

/-- Reading the latest block keeps the order. -/
theorem InOrder.readLatest (hs : s.InOrder) {latest : UInt64} {hash : B256}
    (hpeer : s.peerTask = some (.readingLatest latest)) :
    { s with peerTask := some .creatingNetwork, trigger := .sent hash }.InOrder := by
  have hwaiting := hs.waiting latest (.inr hpeer)
  have hnext : { s with peerTask := some .creatingNetwork }.InOrder :=
    hs.setPeer _ hpeer (by simp) (by simp) (by simp) fun hup =>
      absurd hup (hs.not_up hpeer (by simp) (by simp))
  refine { hnext with
    awaiting := fun hash' h => ?_
    serving := fun h => ?_
    closed := fun h => by cases h
    waiting := fun latest' h => by simp at h }
  · cases hwaiting.symm.trans (hs.awaiting hash' h).1
  · rcases hs.serving h with hclosed | ⟨hash', hsent, -⟩
    · cases hwaiting.symm.trans hclosed
    · cases hwaiting.symm.trans hsent

/-- A failure of the peer keeps the order. -/
theorem InOrder.failPeer (hs : s.InOrder) : s.failPeer.InOrder where
  launched := hs.launched
  idle := hs.idle
  unsent := hs.unsent
  awaiting hash h := by
    obtain ⟨htrigger, hsent⟩ := hs.awaiting hash h
    exact ⟨(drop_of_ne (by simp [htrigger])).trans htrigger, hsent⟩
  serving h := by
    rcases hs.serving h with hclosed | ⟨hash, htrigger, hsent⟩
    · exact .inl ((drop_of_ne (by simp [hclosed])).trans hclosed)
    · exact .inr ⟨hash, (drop_of_ne (by simp [htrigger])).trans htrigger, hsent⟩
  closed _ := .inr rfl
  waiting latest h := by simp [Node.failPeer] at h
  first _ h := absurd rfl h
  up _ := .inl rfl

theorem InOrder.share (hs : s.InOrder) (store : BlockStore) (spotCache : SpotCache) :
    (s.share store spotCache).InOrder :=
  { hs with }

/-- Every move of the pseudo peer keeps the order. -/
theorem InOrder.moves (hs : s.InOrder) (h : s.Moves label s') : s'.InOrder := by
  -- By cases on the move. Each changes few fields, and the others keep what is known of them.
  cases h with
  | launch => exact { hs with launched := fun _ => rfl }
  | recvEngine htask hlaunched =>
    exact { hs with
      launched := fun _ => hlaunched
      idle := fun _ => hs.idle (by simp [htask])
      unsent := fun _ => hs.unsent (.inl htask)
      awaiting := fun hash h => by cases h
      serving := fun h => by cases h }
  | recvHash htask htrigger =>
    exact { hs with
      launched := fun _ => hs.launched (by simp [htask])
      idle := fun _ => hs.idle (by simp [htask])
      unsent := fun h => by simp at h
      awaiting := fun hash h => by
        cases h
        exact ⟨htrigger, by simp [hs.unsent (.inr htask)]⟩
      serving := fun h => by cases h }
  | recvClosed htask htrigger =>
    exact { hs with
      launched := fun _ => hs.launched (by simp [htask])
      idle := fun h => absurd rfl h
      unsent := fun h => by simp at h
      awaiting := fun hash h => by cases h
      serving := fun _ => .inl htrigger }
  | findLatest hpeer =>
    exact hs.setPeer _ hpeer (by simp) (fun latest _ => hs.waiting latest (.inl hpeer)) (by simp)
      fun hup => absurd hup (hs.not_up hpeer (by simp) (by simp))
  | readLatest hpeer hget => exact (hs.readLatest hpeer).share _ _
  | readFailed hpeer =>
    refine (hs.setPeer _ hpeer (by simp) (by simp) (by simp) fun hup => ?_).share _ _
    exact absurd hup (hs.not_up hpeer (by simp) (by simp))
  | createNetwork hpeer =>
    exact { hs.setPeer (.serving true) hpeer (by simp) (by simp) (by simp) (by simp) with
      up := fun _ => .inr ⟨true, rfl⟩ }
  | fail store spotCache => exact (hs.share store spotCache).failPeer
  | sendStart hpeer hphase hsignals =>
    exact { hs.setPeer (.serving false) hpeer (by simp) (by simp) (by simp) (by simp) with
      first := fun h => absurd rfl h }
  | share store spotCache hpeer => exact hs.share store spotCache
  | startPoller hsignals hphase =>
    exact { hs with first := fun h h' => absurd (hs.first h h').1 hsignals }
  | stopPoller hpeer hphase => exact { hs with first := fun _ h => absurd hpeer h }
  | poll hphase hphase' =>
    exact { hs with first := fun h h' => by cases hphase.symm.trans (hs.first h h').2 }
  | announce hup hsent => exact { hs with }
  | networkDown hup => exact { hs with up := fun h => by cases h }

/-- The answer to the first forkchoice keeps the order. -/
theorem InOrder.answer (hs : s.InOrder) {hash : B256} {chain : Chain numberOf}
    (htask : s.importTask = .awaitingForkchoice hash) :
    { s with importTask := .serving, imports := { s.imports with chain := chain } }.InOrder := by
  obtain ⟨htrigger, hsent⟩ := hs.awaiting hash htask
  exact { hs with
    launched := fun _ => hs.launched (by simp [htask])
    idle := fun h => absurd rfl h
    unsent := fun h => by simp at h
    awaiting := fun hash h => by cases h
    serving := fun _ => .inr ⟨hash, htrigger, by simp [hsent]⟩ }

/-- The import service keeps the order. -/
theorem InOrder.imports (hs : s.InOrder) {l : ImportLabel C numberOf P}
    {imports : ImportState C numberOf} (hcan : s.CanImport l)
    (h : (importService C numberOf P).step s.imports l imports) :
    { s with imports := imports }.InOrder := by
  by_cases hserving : s.importTask = .serving
  · refine { hs with
      idle := fun h => absurd hserving h
      unsent := fun h => by simp [hserving] at h
      awaiting := fun hash h => by cases hserving.symm.trans h
      serving := fun _ => ?_ }
    rcases hs.serving hserving with hclosed | ⟨hash, htrigger, hsent⟩
    · exact .inl hclosed
    · exact .inr ⟨hash, htrigger, hsent.trans (sent_isPrefixOf h)⟩
  · -- Before the service runs, blocks are only announced to it.
    cases l with
    | announce block peer =>
      cases h
      exact { hs with }
    | onNewBlock => exact absurd hcan hserving
    | poll id provider => exact absurd hcan hserving
    | process response chain => exact absurd hcan hserving

variable {ls : List (NodeLabel C numberOf P ε)} {l : NodeLabel C numberOf P ε}
  {s₀ : Node C numberOf}

/-- Every step keeps the order. -/
theorem InOrder.step (hs : s.InOrder) (h : (startup C numberOf P ε cutoff).step s l s') :
    s'.InOrder := by
  cases l with
  | startup label => exact hs.moves (moves_of_next h)
  | answer chain =>
    obtain ⟨hash, htask, -, rfl⟩ := h
    exact hs.answer htask
  | imports label =>
    obtain ⟨hcan, imports, hstep, rfl⟩ := h
    exact hs.imports hcan hstep

/-- The order holds at the start. -/
theorem inOrder_init (h : (startup C numberOf P ε cutoff).init s) : s.InOrder := by
  obtain ⟨hlaunched, htask, hpeer, hup, hsignals, hphase, hsent, hann, himports⟩ := h
  obtain ⟨hfrom, hto, hpending, hengine, hchoices⟩ := himports
  refine
    { launched := fun h => absurd htask h
      idle := fun _ => ⟨hengine, hpending⟩
      unsent := fun _ => hchoices
      awaiting := fun hash h => by cases htask.symm.trans h
      serving := fun h => by cases htask.symm.trans h
      closed := fun h => ?_
      waiting := fun latest h => ?_
      first := fun _ _ => ⟨hsignals, hphase⟩
      up := fun h => by cases hup.symm.trans h }
  · rcases hpeer with ⟨hnone, -⟩ | ⟨-, hwaiting⟩
    · exact .inl hnone
    · cases hwaiting.symm.trans h
  · rcases hpeer with ⟨hnone, -⟩ | ⟨-, hwaiting⟩
    · simp [hnone] at h
    · exact hwaiting

/-- The source found a latest block in the run, and this is the hash of the hardcoded block of that
    number, or else of the block that the source has. -/
def LatestRead (gapBlocks : UInt64 → Option BlockAndReceipts)
    (ls : List (NodeLabel C numberOf P ε)) (hash : B256) : Prop :=
  ∃ latest source block, .startup (.findLatest (some latest)) ∈ ls ∧
    .startup (.readLatest source) ∈ ls ∧
    (gapBlocks latest = some block ∨
      gapBlocks latest = none ∧ source.collectBlock latest = .ok block) ∧ hash = block.hash

/-- Nothing was sent to be announced, and nothing will be without a signal. -/
structure IsQuiet (s : Node C numberOf) : Prop where
  signals : s.signals = 0
  sent : s.poller.sent = []
  announcements : s.announcements = []
  polling : ∀ n, s.poller.phase ≠ .polling n

/-- What is known of the tasks after a run, with the store that there was at the start. -/
structure Starts (store₀ : BlockStore) (ls : List (NodeLabel C numberOf P ε))
    (s : Node C numberOf) : Prop where
  inOrder : s.InOrder
  store : ∀ task, s.peerTask = some task → task.Reads → s.poller.store = store₀
  reading : ∀ latest, s.peerTask = some (.readingLatest latest) →
    .startup (.findLatest (some latest)) ∈ ls
  sent : ∀ hash, s.trigger = .sent hash → LatestRead store₀.gapBlocks ls hash
  quiet : .startup (.event true) ∉ ls → s.IsQuiet

/-- A hash that was read was read, whatever comes after. -/
theorem LatestRead.snoc {gapBlocks : UInt64 → Option BlockAndReceipts} {hash : B256}
    (h : LatestRead gapBlocks ls hash) (l : NodeLabel C numberOf P ε) :
    LatestRead gapBlocks (ls ++ [l]) hash := by
  obtain ⟨latest, source, block, hfind, hread, hblock, rfl⟩ := h
  exact ⟨latest, source, block, List.mem_append_left _ hfind, List.mem_append_left _ hread, hblock,
    rfl⟩

/-- The store is not used before the latest block is read. -/
theorem store_of_moves (hs : s.InOrder) (h : s.Moves label s') {task' : PeerTask}
    (hpeer' : s'.peerTask = some task') (hreads : task'.Reads) :
    s'.poller.store = s.poller.store ∧ ∃ task, s.peerTask = some task ∧ task.Reads := by
  have hserving : ∀ {first}, s.peerTask = some (.serving first) → s'.peerTask = s.peerTask →
      False := by
    intro first hpeer hsame
    cases hpeer'.symm.trans (hsame.trans hpeer)
    exact hreads
  have hfailed : s.peerTask = some .failed → s'.peerTask = s.peerTask → False := by
    intro hpeer hsame
    cases hpeer'.symm.trans (hsame.trans hpeer)
    exact hreads
  -- The poller and the network run only in the event loop, or after the pseudo peer has failed.
  have hpolled : (s.signals = 0 ∧ s.poller.phase = .suspended → False) →
      s'.peerTask = s.peerTask → False := by
    intro hpolled hsame
    refine hpolled (hs.first (fun h => hserving h hsame) fun h => hfailed h hsame)
  have hdown : s.networkUp = true → s'.peerTask = s.peerTask → False := by
    intro hup hsame
    obtain h | ⟨first, h⟩ := hs.up hup
    · exact hfailed h hsame
    · exact hserving h hsame
  cases h with
  | launch => exact ⟨rfl, task', hpeer', hreads⟩
  | recvEngine htask hlaunched => exact ⟨rfl, task', hpeer', hreads⟩
  | recvHash htask htrigger => exact ⟨rfl, task', hpeer', hreads⟩
  | recvClosed htask htrigger => exact ⟨rfl, task', hpeer', hreads⟩
  | findLatest hpeer => exact ⟨rfl, _, hpeer, trivial⟩
  | readLatest hpeer hget =>
    cases hpeer'
    exact hreads.elim
  | readFailed hpeer =>
    cases hpeer'
    exact hreads.elim
  | createNetwork hpeer =>
    cases hpeer'
    exact hreads.elim
  | fail store spotCache =>
    cases hpeer'
    exact hreads.elim
  | sendStart hpeer hphase hsignals =>
    cases hpeer'
    exact hreads.elim
  | share store spotCache hpeer => exact (hserving hpeer rfl).elim
  | startPoller hsignals hphase => exact (hpolled (fun h => hsignals h.1) rfl).elim
  | stopPoller hpeer hphase => exact (hfailed hpeer rfl).elim
  | poll hphase hphase' => exact (hpolled (fun h => by cases hphase.symm.trans h.2) rfl).elim
  | announce hup hsent => exact (hdown hup rfl).elim
  | networkDown hup => exact (hdown hup rfl).elim

/-- Without a signal, a step leaves the poller quiet, unless a session is active. -/
theorem IsQuiet.moves (hs : s.IsQuiet) (h : s.Moves label s') (hlabel : label ≠ .event true) :
    s'.IsQuiet := by
  cases h with
  | sendStart hpeer hphase hsignals => exact absurd rfl hlabel
  | startPoller hsignals hphase => exact absurd hs.signals hsignals
  | stopPoller hpeer hphase => exact { hs with polling := fun n h => by cases h }
  | poll hphase hphase' => exact absurd hphase (hs.polling _)
  | announce hup hsent => simp [hs.sent] at hsent
  | _ => exact { hs with }

/-- A hash is in the channel only if it was there before, or was read from the store. -/
theorem sent_of_moves {hash : B256} (h : s.Moves label s') (htrigger : s'.trigger = .sent hash) :
    s.trigger = .sent hash ∨ ∃ latest source block store, label = .readLatest source ∧
      s.peerTask = some (.readingLatest latest) ∧
      s.poller.store.getByNumber source latest = (.ok block, store) ∧ hash = block.hash := by
  cases h with
  | readLatest hpeer hget =>
    cases htrigger
    exact .inr ⟨_, _, _, _, rfl, hpeer, hget, rfl⟩
  | fail store spotCache => exact .inl (eq_sent_of_drop htrigger)
  | _ => exact .inl htrigger

/-- The latest block is being read only if it was found. -/
theorem reading_of_moves {latest : UInt64} (h : s.Moves label s')
    (hpeer : s'.peerTask = some (.readingLatest latest)) :
    s.peerTask = some (.readingLatest latest) ∨ label = .findLatest (some latest) := by
  cases h with
  | @findLatest latest' hfinding =>
    cases latest' with
    | none => cases hpeer
    | some latest' =>
      cases hpeer
      exact .inr rfl
  | readLatest hreading hget => cases hpeer
  | readFailed hreading => cases hpeer
  | createNetwork hcreating => cases hpeer
  | fail store spotCache => cases hpeer
  | sendStart hserving hphase hsignals => cases hpeer
  | _ => exact .inl hpeer

/-- What a store that has cached nothing gives is a hardcoded block, or that of the source. -/
theorem getByNumber_of_nil {source : BlockSource ε} {store store' : BlockStore} {n : UInt64}
    {block : BlockAndReceipts} (hstore : store.blocks.entries = [])
    (hget : store.getByNumber source n = (.ok block, store')) :
    store.gapBlocks n = some block ∨
      store.gapBlocks n = none ∧ source.collectBlock n = .ok block := by
  -- Nothing is cached yet.
  have hmiss : store.blocks.get n = none := by
    rw [Lru.LruMap.get, hstore]
    rfl
  rw [BlockStore.getByNumber, hmiss] at hget
  cases hgap : store.gapBlocks n with
  | some gap =>
    rw [hgap] at hget
    cases hget
    exact .inl rfl
  | none =>
    rw [hgap] at hget
    cases hcollect : source.collectBlock n with
    | ok collected =>
      rw [hcollect] at hget
      cases hget
      exact .inr ⟨rfl, rfl⟩
    | error e =>
      rw [hcollect] at hget
      cases hget

variable {store₀ : BlockStore}

/-- Every step keeps track of the start. -/
theorem Starts.step (hstore₀ : store₀.blocks.entries = []) (hs : Starts store₀ ls s)
    (h : (startup C numberOf P ε cutoff).step s l s') : Starts store₀ (ls ++ [l]) s' := by
  have hinOrder := hs.inOrder.step h
  cases l with
  | startup label =>
    have hmoves := moves_of_next h
    refine ⟨hinOrder, fun task hpeer hreads => ?_, fun latest hpeer => ?_, fun hash htrigger => ?_,
      fun hnot => ?_⟩
    -- The store is not touched before the latest block is read, so it is still the empty one of the
    -- start; the block that is read comes from the source.
    · obtain ⟨hsame, task, hpeer, hreads⟩ := store_of_moves hs.inOrder hmoves hpeer hreads
      exact hsame.trans (hs.store task hpeer hreads)
    · rcases reading_of_moves hmoves hpeer with hold | rfl
      · exact List.mem_append_left _ (hs.reading latest hold)
      · exact List.mem_concat_self
    · obtain hold | ⟨latest, source, block, store, rfl, hpeer, hget, rfl⟩ :=
        sent_of_moves hmoves htrigger
      · exact (hs.sent hash hold).snoc _
      · rw [hs.store _ hpeer trivial] at hget
        exact ⟨latest, source, block, List.mem_append_left _ (hs.reading latest hpeer),
          List.mem_concat_self, getByNumber_of_nil hstore₀ hget, rfl⟩
    · refine (hs.quiet fun hmem => hnot (List.mem_append_left _ hmem)).moves hmoves ?_
      rintro rfl
      exact hnot List.mem_concat_self
  | answer chain =>
    obtain ⟨hash, -, -, rfl⟩ := h
    exact ⟨hinOrder, hs.store, fun latest hpeer => List.mem_append_left _ (hs.reading latest hpeer),
      fun hash htrigger => (hs.sent hash htrigger).snoc _, fun hnot =>
        { hs.quiet fun hmem => hnot (List.mem_append_left _ hmem) with }⟩
  | imports label =>
    obtain ⟨-, imports, -, rfl⟩ := h
    exact ⟨hinOrder, hs.store, fun latest hpeer => List.mem_append_left _ (hs.reading latest hpeer),
      fun hash htrigger => (hs.sent hash htrigger).snoc _, fun hnot =>
        { hs.quiet fun hmem => hnot (List.mem_append_left _ hmem) with }⟩

/-- Nothing was started at first. -/
theorem starts_init (h : (startup C numberOf P ε cutoff).init s) :
    Starts s.poller.store ([] : List (NodeLabel C numberOf P ε)) s := by
  refine ⟨inOrder_init h, fun _ _ _ => rfl, fun latest hreading => ?_, fun hash htrigger => ?_,
    fun _ => ?_⟩
  all_goals obtain ⟨-, -, hpeer, -, hsignals, hphase, hsent, hannouncements, -⟩ := h
  · rcases hpeer with ⟨hpeer, -⟩ | ⟨hpeer, -⟩ <;> cases hpeer.symm.trans hreading
  · rcases hpeer with ⟨-, hpeer⟩ | ⟨-, hpeer⟩ <;> cases hpeer.symm.trans htrigger
  · exact ⟨hsignals, hsent, hannouncements, fun n hn => by cases hphase.symm.trans hn⟩

theorem inOrder_of_run (hinit : (startup C numberOf P ε cutoff).init s₀)
    (hrun : Run (startup C numberOf P ε cutoff) s₀ ls s) : s.InOrder :=
  hrun.invariant (P := fun _ s => s.InOrder) (inOrder_init hinit) fun _ _ _ _ hs hstep =>
    hs.step hstep

/-- The start is kept track of along every run. -/
theorem starts_of_run (hinit : (startup C numberOf P ε cutoff).init s₀)
    (hstore₀ : s₀.poller.store.blocks.entries = [])
    (hrun : Run (startup C numberOf P ε cutoff) s₀ ls s) : Starts s₀.poller.store ls s :=
  hrun.invariant (P := Starts s₀.poller.store) (starts_init hinit) fun _ _ _ _ hs hstep =>
    hs.step hstore₀ hstep

/-- Whatever the order of the steps:

    * when the import service runs, the node is launched, and the first fork choice was for the
      latest block: the hardcoded block of the number that the source found, or else the block that
      the source has for it. This is unless there is no pseudo peer, or none any more;
    * before that, nothing was sent to the engine, and no import is pending;
    * nothing is announced, or sent to be announced, before a session is active;
    * the signal to start is sent at the first active session without waiting or failing. -/
theorem startup_order (hinit : (startup C numberOf P ε cutoff).init s₀)
    {dbBlockNumber : Option (B256 → Option UInt64)} {gaps : List BlockAndReceipts}
    {chainId : UInt64} (hstore : s₀.poller.store = .new dbBlockNumber gaps chainId)
    (hrun : Run (startup C numberOf P ε cutoff) s₀ ls s) :
    (s.importTask = .serving → s.launched = true ∧
      ((∃ hash, LatestRead (testnetGapBlocks gaps chainId) ls hash ∧
          [forkchoice hash] <+: s.imports.sent) ∨
        s.peerTask = none ∨ s.peerTask = some .failed)) ∧
    (s.importTask ≠ .serving →
      s.imports.engine = [] ∧ s.imports.pendingImports = fun _ => none) ∧
    (.startup (.event true) ∉ ls → s.poller.sent = [] ∧ s.announcements = []) ∧
    (s.peerTask = some (.serving true) →
      s.sendStart = some { s with signals := 1, peerTask := some (.serving false) }) := by
  have hs := starts_of_run hinit (by rw [hstore]; rfl) hrun
  rw [hstore] at hs
  refine ⟨fun hserving => ⟨hs.inOrder.launched (by simp [hserving]), ?_⟩, hs.inOrder.idle,
    fun hnot => ⟨(hs.quiet hnot).sent, (hs.quiet hnot).announcements⟩, fun hfirst => ?_⟩
  · rcases hs.inOrder.serving hserving with hclosed | ⟨hash, htrigger, hsent⟩
    · exact .inr (hs.inOrder.closed hclosed)
    · exact .inl ⟨hash, hs.sent hash htrigger, hsent⟩
  · obtain ⟨hsignals, hphase⟩ := hs.inOrder.first (by simp [hfirst]) (by simp [hfirst])
    rw [sendStart, if_neg (by simp [hphase]), if_pos hsignals]

/-! ## Whether blocks are imported -/

/-- A task that failed does not come back. -/
theorem failed_of_moves (h : s.Moves label s') (hpeer : s.peerTask = some .failed) :
    s'.peerTask = some .failed := by
  cases h with
  | findLatest hfinding => cases hpeer.symm.trans hfinding
  | readLatest hreading hget => cases hpeer.symm.trans hreading
  | readFailed hreading => cases hpeer.symm.trans hreading
  | createNetwork hcreating => cases hpeer.symm.trans hcreating
  | fail store spotCache => rfl
  | sendStart hserving hphase hsignals => cases hpeer.symm.trans hserving
  | _ => exact hpeer

/-- A task that serves goes on, or fails. -/
theorem serving_of_moves {first : Bool} (h : s.Moves label s')
    (hpeer : s.peerTask = some (.serving first)) : s'.peerTask = some .failed ∨
      ∃ first', s'.peerTask = some (.serving first') ∧ s'.trigger = s.trigger := by
  cases h with
  | findLatest hfinding => cases hpeer.symm.trans hfinding
  | readLatest hreading hget => cases hpeer.symm.trans hreading
  | readFailed hreading => cases hpeer.symm.trans hreading
  | createNetwork hcreating => cases hpeer.symm.trans hcreating
  | fail store spotCache => exact .inl rfl
  | sendStart hserving hphase hsignals => exact .inr ⟨false, rfl, rfl⟩
  | _ => exact .inr ⟨first, hpeer, rfl⟩

/-- The pseudo peer stays in its event loop until it fails, and does not use the channel. -/
theorem trigger_of_run {first : Bool} (hpeer : s.peerTask = some (.serving first))
    (hrun : Run (startup C numberOf P ε cutoff) s ls s') :
    s'.peerTask = some .failed ∨
      ∃ first', s'.peerTask = some (.serving first') ∧ s'.trigger = s.trigger := by
  refine hrun.invariant (P := fun _ s' => s'.peerTask = some .failed ∨
    ∃ first', s'.peerTask = some (.serving first') ∧ s'.trigger = s.trigger)
    (.inr ⟨first, hpeer, rfl⟩) ?_
  intro ls s₁ l s₂ h hstep
  cases l with
  | startup label =>
    have hmoves := moves_of_next hstep
    rcases h with hfailed | ⟨first', hserving, htrigger⟩
    · exact .inl (failed_of_moves hmoves hfailed)
    · rw [← htrigger]
      exact serving_of_moves hmoves hserving
  | answer chain =>
    obtain ⟨hash, -, -, rfl⟩ := hstep
    exact h
  | imports label =>
    obtain ⟨-, imports, -, rfl⟩ := hstep
    exact h

variable (P ε cutoff) in
/-- The import service can start, and the pseudo peer not end before. -/
def CanServe (s : Node C numberOf) : Prop :=
  ∃ ls s', Run (startup C numberOf P ε cutoff) s ls s' ∧ s'.peerTask ≠ some .failed ∧
    s'.importTask = .serving

theorem CanServe.cons (h : s'.CanServe P ε cutoff)
    (hstep : (startup C numberOf P ε cutoff).step s l s') : s.CanServe P ε cutoff := by
  obtain ⟨ls, s'', hrun, hpeer, hserving⟩ := h
  exact ⟨l :: ls, s'', .cons hstep hrun, hpeer, hserving⟩

/-- The node can serve once the first forkchoice was sent. -/
theorem canServe_of_awaitingForkchoice {hash : B256} (hpeer : s.peerTask ≠ some .failed)
    (htask : s.importTask = .awaitingForkchoice hash) : s.CanServe P ε cutoff :=
  ⟨[.answer s.imports.chain], _, .single ⟨hash, htask, .inl rfl, rfl⟩, hpeer, rfl⟩

/-- The node can serve once the hash of the trigger was sent. -/
theorem canServe_of_awaitingTrigger {hash : B256} (hpeer : s.peerTask ≠ some .failed)
    (htrigger : s.trigger = .sent hash) (htask : s.importTask = .awaitingTrigger) :
    s.CanServe P ε cutoff := by
  have hnext : s.next (ε := ε) cutoff .recvTrigger = some { s with
      importTask := .awaitingForkchoice hash
      imports := { s.imports with sent := s.imports.sent ++ [forkchoice hash] } } := by
    rw [next, if_pos htask, recvTrigger, htrigger]
  refine CanServe.cons (l := .startup .recvTrigger) ?_ hnext
  exact canServe_of_awaitingForkchoice hpeer rfl

/-- The node can serve once it is launched and the hash was sent. -/
theorem canServe_of_launched {hash : B256} (hpeer : s.peerTask ≠ some .failed)
    (htrigger : s.trigger = .sent hash) (htask : s.importTask = .awaitingEngine)
    (hlaunched : s.launched = true) : s.CanServe P ε cutoff := by
  have hnext : s.next (ε := ε) cutoff .recvEngine =
      some { s with importTask := .awaitingTrigger } := if_pos ⟨htask, hlaunched⟩
  refine CanServe.cons (l := .startup .recvEngine) ?_ hnext
  exact canServe_of_awaitingTrigger hpeer htrigger rfl

/-- The node can serve once the hash was sent, as it can be launched then. -/
theorem canServe_of_sent {hash : B256} (hpeer : s.peerTask ≠ some .failed)
    (htrigger : s.trigger = .sent hash) : s.CanServe P ε cutoff := by
  cases htask : s.importTask with
  | awaitingEngine =>
    cases hlaunched : s.launched with
    | true => exact canServe_of_launched hpeer htrigger htask hlaunched
    | false =>
      have hnext : s.next (ε := ε) cutoff .launch = some { s with launched := true } :=
        if_neg (by simp [hlaunched])
      refine CanServe.cons (l := .startup .launch) ?_ hnext
      exact canServe_of_launched hpeer htrigger htask rfl
  | awaitingTrigger => exact canServe_of_awaitingTrigger hpeer htrigger htask
  | awaitingForkchoice hash => exact canServe_of_awaitingForkchoice hpeer htask
  | serving => exact ⟨[], s, .nil, hpeer, htask⟩

/-- Once the pseudo peer is in its event loop, blocks can still be imported while it runs exactly if
    the hash of the latest block was sent. If the latest block was not found or not read at the
    start, they never are. -/
theorem imports_iff {first : Bool} (hs : Reachable (startup C numberOf P ε cutoff) s)
    (hpeer : s.peerTask = some (.serving first)) :
    s.CanServe P ε cutoff ↔ ∃ hash, s.trigger = .sent hash := by
  constructor
  · rintro ⟨ls, s', hrun, hnotFailed, hserving⟩
    obtain ⟨s₀, ls₀, hinit, hrun₀⟩ := hs.run hrun
    have hinOrder := inOrder_of_run hinit hrun₀
    obtain hfailed | ⟨first', hpeer', htrigger⟩ := trigger_of_run hpeer hrun
    · exact absurd hfailed hnotFailed
    · rcases hinOrder.serving hserving with hclosed | ⟨hash, hsent, -⟩
      · exact absurd hclosed (hinOrder.not_closed hpeer' (by simp))
      · exact ⟨hash, htrigger.symm.trans hsent⟩
  · rintro ⟨hash, htrigger⟩
    exact canServe_of_sent (by simp [hpeer]) htrigger

/-! ### Two starts -/

/-- A node with a block source, before it starts. -/
def coldNode : Node importCrypto importNumber where
  launched := false
  importTask := .awaitingEngine
  trigger := .waiting
  peerTask := some .findingLatest
  networkUp := false
  signals := 0
  poller := BlockPoller.suspendedPoller
  spotCache := emptyCache
  announcements := []
  imports := importState5

theorem init_coldNode : (startup importCrypto importNumber Unit Empty none).init coldNode :=
  ⟨rfl, rfl, .inr ⟨rfl, rfl⟩, rfl, rfl, rfl, rfl, rfl, rfl, rfl, rfl, rfl, rfl⟩

/-- The latest block of the source is block 5. -/
def warmStart : List (NodeLabel importCrypto importNumber Unit Empty) :=
  [.startup (.findLatest (some 5)), .startup (.readLatest countingSource), .startup .launch,
    .startup .recvEngine, .startup .recvTrigger, .answer chain5]

/-- The first fork choice is for block 5. -/
theorem startup_order_warm : ∃ s hash,
    Run (startup importCrypto importNumber Unit Empty none) coldNode warmStart s ∧
    LatestRead (testnetGapBlocks [] mainnetChainId) warmStart hash ∧
    [forkchoice hash] <+: s.imports.sent := by
  have hrun : Run (startup importCrypto importNumber Unit Empty none) coldNode warmStart _ :=
    .cons rfl <| .cons rfl <| .cons rfl <| .cons rfl <| .cons rfl <|
      .single ⟨_, rfl, .inl rfl, rfl⟩
  obtain ⟨hash, hread, hsent⟩ | hnone | hfailed :=
    ((startup_order init_coldNode rfl hrun).1 rfl).2
  · exact ⟨_, hash, hrun, hread, hsent⟩
  · cases hnone
  · cases hfailed

/-- The source finds no block when the node starts. The pseudo peer serves, but no block can be
    imported. -/
theorem imports_iff_cold : ∃ s,
    Reachable (startup importCrypto importNumber Unit Empty none) s ∧
    s.peerTask = some (.serving true) ∧ ¬ s.CanServe Unit Empty none := by
  have hrun : Run (startup importCrypto importNumber Unit Empty none) coldNode
      [.startup (.findLatest none), .startup (.createNetwork true)] _ :=
    .cons rfl <| .single rfl
  have hs : Reachable (startup importCrypto importNumber Unit Empty none) _ :=
    ⟨coldNode, _, init_coldNode, hrun⟩
  refine ⟨_, hs, rfl, fun hserve => ?_⟩
  obtain ⟨hash, htrigger⟩ := (imports_iff hs rfl).1 hserve
  cases htrigger

end Node

end Node

end Nanoreth
