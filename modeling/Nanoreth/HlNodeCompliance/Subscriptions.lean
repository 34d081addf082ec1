import Nanoreth.HlNodeCompliance.Agreement
import Nanoreth.Lib.Lines
import Nanoreth.Lib.Overwrite
import Nanoreth.Lib.Transition

/-!
# Subscriptions

A client may subscribe to the new heads of the chain and to its logs
(`addons/hl_node_compliance/rpc.rs`, `HlNodeFilterWs`; `addons/subscribe_fixup.rs`,
`addons/utils.rs`). Whether the logs are those of the filtered blocks depends on the flags of the
node and, if it serves both kinds of clients, on the query of the connection
(`addons/hl_node_compliance/layer.rs`; `ComplianceFlags.compliant`).

Each subscription is a task of its own. The changes of the chain are broadcast to it, and it skips
some of them if it lags behind. It reads the receipts of a block again when it sends the logs of the
block, which may be later. As long as the chain only grows, what is sent is what is heard, in order,
and what `eth_getLogs` serves (`subscription_spec`). If a block is replaced, its logs are sent again
as removed ones. They are then numbered by the receipts of the other block (`removed_log_iff`).
-/

namespace Nanoreth

open Cut Lines Overwrite Partial Transition

/-! ## Compliance of a connection -/

/-- What a pair of the query says, if its key is `hl`. -/
def hlValue (pair : List Char) : Option Bool :=
  match splitOnce '=' pair with
  | some (key, value) =>
    if key = "hl".toList then some (value = "true".toList || value = "1".toList) else none
  | none => none

/-- Whether the query asks for compliance, by the first parameter that says so. -/
def parseHlQuery (query : Option (List Char)) (default : Bool) : Bool :=
  match query with
  | none => default
  | some query => ((query.splitOn '&').findSome? hlValue).getD default

/-- Whether a request is a compliant one, by the mark of the layer. -/
def isHlCompliant (mode : Option Bool) (default : Bool) : Bool := mode.getD default

/-- The flags of the node that compliance depends on. -/
structure ComplianceFlags where
  hlNodeCompliant : Bool
  hlNodeCompliantMultiplexed : Bool

/-- A connection to a server of the node. The servers with HTTP get the layer when they are
    restarted. -/
structure Connection where
  restarted : Bool
  overHttp : Bool
  query : Option (List Char)

namespace ComplianceFlags

variable (flags : ComplianceFlags)

/-- The default of the handlers, if they are installed. -/
def installed : Option Bool :=
  if flags.hlNodeCompliantMultiplexed then some flags.hlNodeCompliant
  else if flags.hlNodeCompliant then some true
  else none

/-- The mark of the layer. -/
def mode (connection : Connection) : Option Bool :=
  if flags.hlNodeCompliantMultiplexed && connection.restarted && connection.overHttp then
    some (parseHlQuery connection.query flags.hlNodeCompliant)
  else none

/-- Whether the requests of a connection are compliant ones. -/
def compliant (connection : Connection) : Bool :=
  match flags.installed with
  | none => false
  | some default => isHlCompliant (flags.mode connection) default

end ComplianceFlags

/-! ## The chain -/

/-- A block of the chain and its receipts. -/
structure ExecutedBlock where
  block : RecoveredBlock
  receipts : List EthereumReceipt

/-- What the provider has by the numbers of blocks. -/
abbrev ReceiptsByNumber := UInt64 → Option (List EthereumReceipt)

/-- A change of the chain. -/
inductive CanonStateNotification
  | commit (new : List ExecutedBlock)
  | reorg (old new : List ExecutedBlock)

/-- The log of a block that is replaced. -/
def RpcLog.remove (log : RpcLog) : RpcLog := { log with removed := true }

section Feeds

variable {R E : Type} (C : Crypto) (V : RpcConvert R)

namespace ExecutedBlock

variable (b : ExecutedBlock)

/-- The number of the block. -/
def number : UInt64 := b.block.block.header.inner.number

/-- The block without its system transactions. -/
def filtered : ExecutedBlock where
  block := b.block.drop b.block.systemTxCount
  receipts := b.receipts.drop b.block.systemTxCount

/-- The logs that match a filter. -/
def logs (filter : Log → Bool) : List RpcLog :=
  (b.block.blockLogs C b.receipts).filter fun log => filter log.inner

/-- The provider has the receipts, and the system transactions come first. -/
structure KnownIn (chain : ReceiptsByNumber) : Prop where
  receipts_eq : chain b.number = some b.receipts
  first : SystemFirst b.block b.receipts

end ExecutedBlock

namespace CanonStateNotification

/-- The blocks that become canonical. -/
def committed : CanonStateNotification → List ExecutedBlock
  | .commit new | .reorg _ new => new

/-- The change, with the filtered blocks. -/
def filtered : CanonStateNotification → CanonStateNotification
  | .commit new => .commit (new.map .filtered)
  | .reorg old new => .reorg (old.map .filtered) (new.map .filtered)

/-- The logs of blocks that are replaced are sent again, as removed ones. -/
def logs (filter : Log → Bool) : CanonStateNotification → List RpcLog
  | .commit new => new.flatMap (·.logs C filter)
  | .reorg old new =>
    old.flatMap (fun b => (b.logs C filter).map .remove) ++ new.flatMap (·.logs C filter)

/-- The receipts of the blocks are there when the change is made known. -/
def apply (chain : ReceiptsByNumber) : CanonStateNotification → ReceiptsByNumber
  | .commit new => insert chain new
  | .reorg old new =>
    insert (fun number => if ∃ b ∈ old, b.number = number then none else chain number) new
where
  insert (chain : ReceiptsByNumber) (new : List ExecutedBlock) : ReceiptsByNumber :=
    (new.map fun b => (b.number, b.receipts)).foldl
      (fun chain entry => Function.update chain entry.1 (some entry.2)) chain

/-- Blocks are committed at numbers of their own. -/
def Extends (chain : ReceiptsByNumber) : CanonStateNotification → Prop
  | .commit new => (new.map (·.number)).Nodup ∧ ∀ b ∈ new, chain b.number = none
  | .reorg _ new => (new.map (·.number)).Nodup

end CanonStateNotification

/-! ## Feeds -/

/-- What is sent to a client. -/
inductive SubscriptionResult
  | header (hash : B256) (header : Header) (size : U256)
  | log (log : RpcLog)

/-- The new heads, or the logs that match a filter. -/
inductive Feed
  | newHeads
  | logs (filter : Log → Bool) (compliant : Bool)

/-- What is subscribed to. -/
inductive SubscriptionKind
  | newHeads
  | logs

/-- The parameters of a subscription. -/
inductive SubscriptionParams
  | logs (filter : Log → Bool)
  | bool (value : Bool)

/-- The feed of a subscription. There is none if its parameters are of another kind. -/
def subscribe (compliant : Bool) : SubscriptionKind → Option SubscriptionParams → Option Feed
  | .newHeads, _ => some .newHeads
  | .logs, some (.logs filter) => some (.logs filter compliant)
  | .logs, some (.bool _) => none
  | .logs, none => some (.logs (fun _ => true) compliant)

namespace Feed

/-- The items of the stream for a change of the chain. -/
def items : Feed → CanonStateNotification → List SubscriptionResult
  | .newHeads, n => n.committed.map fun b =>
    let header := b.block.block.header
    .header (header.hash C) header.inner (V.size b.block.block)
  | .logs filter _, n => (n.logs C filter).map .log

/-- An item as it is sent, if it is. -/
def convert (api : EthApi E) : Feed → SubscriptionResult → Except Halt (Option SubscriptionResult)
  | .logs _ true, .log log => (api.adjustLog log).map (·.map .log)
  | _, item => .ok (some item)

/-- What is to be sent: the items, for blocks without their system transactions if the feed is a
    compliant one. -/
def served : Feed → CanonStateNotification → List SubscriptionResult
  | .logs filter true, n => (n.filtered.logs C filter).map .log
  | feed, n => feed.items C V n

end Feed

/-! ## Tasks -/

/-- Whether the task of a subscription goes on. -/
inductive FeedStatus
  | running
  | closed
  | panicked (halt : Halt)

/-- A subscription: the changes that it has taken from the broadcast, those that are kept there for
    it, the items of the one it has taken last, and what it has sent. -/
structure FeedTask where
  feed : Feed
  taken : List CanonStateNotification
  queue : List CanonStateNotification
  items : List SubscriptionResult
  sent : List SubscriptionResult
  status : FeedStatus

namespace FeedTask

/-- A task that has heard of nothing yet. -/
def new (feed : Feed) : FeedTask := ⟨feed, [], [], [], [], .running⟩

variable (t : FeedTask)

/-- The changes that the task has taken, or can still take. -/
def heard : List CanonStateNotification := t.taken ++ t.queue

/-- A change is broadcast. -/
def hear (n : CanonStateNotification) : FeedTask :=
  match t.status with
  | .running => { t with queue := t.queue ++ [n] }
  | _ => t

/-- The next change is taken, once the items of the one before are gone. -/
def take : Option FeedTask :=
  match t.items, t.queue with
  | [], n :: queue =>
    some { t with taken := t.taken ++ [n], queue := queue, items := t.feed.items C V n }
  | _, _ => none

/-- The next item is read, and sent unless it is dropped. -/
def next (api : EthApi E) : Option FeedTask :=
  match t.items with
  | [] => none
  | item :: items =>
    match t.feed.convert api item with
    | .ok converted => some { t with items := items, sent := t.sent ++ converted.toList }
    | .error halt => some { t with items := items, status := .panicked halt }

end FeedTask

/-- A node with its subscriptions. -/
structure FeedNode (ι : Type) where
  chain : ReceiptsByNumber
  tasks : ι → Option FeedTask

/-- A step of the node or of a subscription. -/
inductive FeedLabel (ι E : Type)
  | notify (n : CanonStateNotification)
  | subscribe (i : ι) (connection : Connection) (kind : SubscriptionKind)
    (params : Option SubscriptionParams)
  /-- A subscription lags behind, and only some of the changes are kept for it. -/
  | lag (i : ι) (kept : List CanonStateNotification)
  | take (i : ι)
  | next (i : ι) (api : EthApi E)
  | close (i : ι)

/-- The receipts are read, or the read fails. -/
def EthApi.Reads (api : EthApi E) (chain : ReceiptsByNumber) : Prop :=
  ∀ number, api.receiptsByBlock number = .ok (chain number) ∨
    ∃ e, api.receiptsByBlock number = .error e

/-- No read fails. -/
def EthApi.Succeeds (api : EthApi E) : Prop := ∀ number e, api.receiptsByBlock number ≠ .error e

/-- No read of the step fails. -/
def FeedLabel.Succeeds {ι : Type} : FeedLabel ι E → Prop
  | .next _ api => api.Succeeds
  | _ => True

variable {ι : Type}

/-- The changes that were made known. -/
def notifications (ls : List (FeedLabel ι E)) : List CanonStateNotification :=
  ls.filterMap fun
    | .notify n => some n
    | _ => none

/-- The chain only grows, by blocks whose system transactions come first. -/
def Grows (ls : List (FeedLabel ι E)) : Prop :=
  ∀ n ∈ notifications ls, n = .commit n.committed ∧
    ∀ b ∈ n.committed, SystemFirst b.block b.receipts

theorem notifications_append (ls ls' : List (FeedLabel ι E)) :
    notifications (ls ++ ls') = notifications ls ++ notifications ls' :=
  List.filterMap_append

theorem Grows.of_append {ls ls' : List (FeedLabel ι E)} (h : Grows (ls ++ ls')) : Grows ls :=
  fun n hn => h n (notifications_append ls ls' ▸ List.mem_append_left _ hn)

variable [DecidableEq ι]

/-- The node with a task. -/
def FeedNode.setTask (s : FeedNode ι) (i : ι) (t : FeedTask) : FeedNode ι :=
  { s with tasks := Function.update s.tasks i (some t) }

namespace FeedNode

/-- The steps of the node and its subscriptions. -/
inductive Step (flags : ComplianceFlags) : FeedNode ι → FeedLabel ι E → FeedNode ι → Prop
  | notify {s n} : n.Extends s.chain →
      Step flags s (.notify n) ⟨n.apply s.chain, fun i => (s.tasks i).map (·.hear n)⟩
  | subscribe {s i connection kind params feed} : s.tasks i = none →
      Nanoreth.subscribe (flags.compliant connection) kind params = some feed →
      Step flags s (.subscribe i connection kind params) (s.setTask i (.new feed))
  | refuse {s i connection kind params} :
      Nanoreth.subscribe (flags.compliant connection) kind params = none →
      Step flags s (.subscribe i connection kind params) s
  | lag {s i t kept} : s.tasks i = some t → t.status = .running → kept.Sublist t.queue →
      Step flags s (.lag i kept) (s.setTask i { t with queue := kept })
  | take {s i t t'} : s.tasks i = some t → t.status = .running → t.take C V = some t' →
      Step flags s (.take i) (s.setTask i t')
  | next {s i api t t'} : s.tasks i = some t → t.status = .running → api.Reads s.chain →
      t.next api = some t' → Step flags s (.next i api) (s.setTask i t')
  | close {s i t} : s.tasks i = some t → t.status = .running →
      Step flags s (.close i) (s.setTask i { t with status := .closed })

end FeedNode

/-- A node that starts without subscriptions. -/
def feeds (flags : ComplianceFlags) : System (FeedNode ι) (FeedLabel ι E) where
  init s := s.tasks = fun _ => none
  step := FeedNode.Step C V flags

/-! ## Logs of known blocks -/

variable {C V} {b : ExecutedBlock} {new : List ExecutedBlock} {chain chain' : ReceiptsByNumber}
  {filter : Log → Bool} {n : CanonStateNotification} {feed : Feed} {item : SubscriptionResult}
  {r : Option SubscriptionResult} {api : EthApi E}

/-- A log is dropped if there are no receipts of its block. -/
theorem EthApi.adjustLog_unread {log : RpcLog} {number : UInt64}
    (hnumber : log.blockNumber = some number)
    (hunread : ∀ receipts, api.receiptsByBlock number ≠ .ok (some receipts)) :
    api.adjustLog log = .ok none := by
  unfold EthApi.adjustLog
  split
  · next number' _ _ hnumber' =>
    cases hnumber.symm.trans hnumber'
    split
    · next receipts hread => exact absurd hread (hunread receipts)
    · rfl
  · rfl

/-- What a log is adjusted to, by whoever reads the receipts of its block. -/
def Adjusts (E : Type) (b : ExecutedBlock) (log : RpcLog) (r : Option RpcLog) : Prop :=
  log.blockNumber = some b.number ∧
    ∀ api : EthApi E, api.receiptsByBlock b.number = .ok (some b.receipts) →
      api.adjustLog log = .ok r

/-- The logs of the system transactions are dropped, and the other ones are those of the filtered
    block. A filter does not depend on how they are numbered. -/
theorem ExecutedBlock.KnownIn.adjusts_logs (hknown : b.KnownIn chain) (filter : Log → Bool) :
    ∃ rs, List.Forall₂ (Adjusts E b) (b.logs C filter) rs ∧
      rs.filterMap id = b.filtered.logs C filter := by
  have hfirst := hknown.first
  set k := b.block.systemTxCount
  set system := ((b.block.take k).blockLogs C (b.receipts.take k)).filter
    (fun log => filter log.inner) with hsystem
  have hlogs : b.logs C filter = system ++
      (b.filtered.logs C filter).map (.shift k (logCount (b.receipts.take k))) := by
    rw [ExecutedBlock.logs, hfirst.blockLogs_eq C, List.filter_append, List.filter_map]
    rfl
  rw [hlogs]
  -- Logs of system transactions become nothing, and the others are shifted back.
  refine ⟨system.map (fun _ => none) ++ (b.filtered.logs C filter).map some,
    List.rel_append ?_ ?_, ?_⟩
  · rw [List.forall₂_map_right_iff, List.forall₂_same]
    intro log hlog
    obtain ⟨i, j, hi, hj, hnumber, -, hlt⟩ := HlHeader.mem_rpcLogs (List.mem_filter.1 hlog).1
    rw [RecoveredBlock.zip_take, Nat.zero_add,
      List.length_take_of_le hfirst.cutAt_zip.le_length] at hlt
    exact ⟨hnumber, fun api hreceipts =>
      EthApi.adjustLog_system hreceipts hfirst.cut_receipts hi hj hnumber hlt⟩
  · rw [List.forall₂_map_left_iff, List.forall₂_map_right_iff, List.forall₂_same]
    intro log hlog
    obtain ⟨i, j, hi, hj, hnumber, -, -⟩ := HlHeader.mem_rpcLogs (List.mem_filter.1 hlog).1
    exact ⟨hnumber, fun api hreceipts =>
      EthApi.adjustLog_shift hreceipts hfirst.cut_receipts hi hj hnumber⟩
  · rw [List.filterMap_append, List.filterMap_map, List.filterMap_map,
      List.filterMap_eq_nil_iff.2, List.nil_append]
    · exact List.filterMap_some
    · exact fun _ _ => rfl

/-- The logs of known blocks become those of the filtered blocks. -/
theorem adjusts_flatMap (hknown : ∀ b ∈ new, b.KnownIn chain) (filter : Log → Bool) :
    ∃ rs, List.Forall₂ (fun log r => ∃ b : ExecutedBlock, b.KnownIn chain ∧ Adjusts E b log r)
        (new.flatMap (·.logs C filter)) rs ∧
      rs.filterMap id = (new.map ExecutedBlock.filtered).flatMap (·.logs C filter) := by
  induction new with
  | nil => exact ⟨[], .nil, rfl⟩
  | cons b new ih =>
    obtain ⟨hb, hnew⟩ := List.forall_mem_cons.1 hknown
    obtain ⟨rs, hrs, heq⟩ := hb.adjusts_logs (E := E) (C := C) filter
    obtain ⟨rs', hrs', heq'⟩ := ih hnew
    refine ⟨rs ++ rs', List.rel_append (hrs.imp fun _ _ h => ⟨b, hb, h⟩) hrs', ?_⟩
    rw [List.filterMap_append, heq, heq']
    rfl

/-! ## Known changes -/

/-- Blocks were added that the provider has. -/
structure CanonStateNotification.KnownIn (n : CanonStateNotification) (chain : ReceiptsByNumber) :
    Prop where
  isCommit : n = .commit n.committed
  known : ∀ b ∈ n.committed, b.KnownIn chain

/-- Whether a feed leaves the system transactions out. -/
def Feed.isCompliant : Feed → Bool
  | .newHeads => false
  | .logs _ compliant => compliant

/-- What an item is sent as, by whoever reads the receipts of its block. -/
inductive Becomes (E : Type) (chain : ReceiptsByNumber) :
    Feed → SubscriptionResult → Option SubscriptionResult → Prop
  | same {feed : Feed} {item : SubscriptionResult} : feed.isCompliant = false →
      Becomes E chain feed item (some item)
  | adjusted {filter : Log → Bool} {b : ExecutedBlock} {log : RpcLog} {r : Option RpcLog} :
      b.KnownIn chain → Adjusts E b log r →
      Becomes E chain (.logs filter true) (.log log) (r.map .log)

/-- What an item becomes stays so while the chain grows. -/
theorem Becomes.mono (h : Becomes E chain feed item r)
    (hchain : feed.isCompliant = true → ∀ b : ExecutedBlock, b.KnownIn chain → b.KnownIn chain') :
    Becomes E chain' feed item r := by
  cases h with
  | same hfeed => exact .same hfeed
  | adjusted hknown hadjusts => exact .adjusted (hchain rfl _ hknown) hadjusts

/-- If the read fails, the item is dropped. -/
theorem Becomes.convert (h : Becomes E chain feed item r) (hreads : api.Reads chain) :
    feed.convert api item = .ok r ∨ feed.convert api item = .ok none ∧ ¬ api.Succeeds := by
  cases h with
  | same hfeed =>
    left
    cases feed with
    | newHeads => rfl
    | logs filter compliant =>
      cases hfeed
      cases item <;> rfl
  | @adjusted filter b log r hknown hadjusts =>
    obtain ⟨hnumber, hadjusts⟩ := hadjusts
    rcases hreads b.number with hread | ⟨e, hfailed⟩
    · left
      rw [hknown.receipts_eq] at hread
      rw [Feed.convert, hadjusts api hread]
      rfl
    · right
      refine ⟨?_, fun hsucceeds => hsucceeds _ _ hfailed⟩
      rw [Feed.convert, EthApi.adjustLog_unread hnumber (by simp [hfailed])]
      rfl

/-- The items of a notification become what is served for it. -/
theorem exists_becomes (feed : Feed) (hknown : feed.isCompliant = true → n.KnownIn chain) :
    ∃ rs, List.Forall₂ (Becomes E chain feed) (feed.items C V n) rs ∧
      rs.filterMap id = feed.served C V n := by
  have hsame : feed.isCompliant = false → feed.served C V n = feed.items C V n →
      ∃ rs, List.Forall₂ (Becomes E chain feed) (feed.items C V n) rs ∧
        rs.filterMap id = feed.served C V n := by
    intro hfeed hserved
    refine ⟨(feed.items C V n).map some, ?_, ?_⟩
    · rw [List.forall₂_map_right_iff, List.forall₂_same]
      exact fun item _ => .same hfeed
    · rw [List.filterMap_map, hserved]
      exact List.filterMap_some
  -- Only the compliant feed of logs adjusts what it sends.
  match feed, hknown, hsame with
  | .newHeads, _, hsame => exact hsame rfl rfl
  | .logs _ false, _, hsame => exact hsame rfl rfl
  | .logs filter true, hknown, _ =>
    obtain ⟨hcommit, hblocks⟩ := hknown rfl
    obtain ⟨rs, hrs, heq⟩ := adjusts_flatMap (E := E) (C := C) hblocks filter
    refine ⟨rs.map (·.map .log), ?_, ?_⟩
    · rw [hcommit, Feed.items, List.forall₂_map_left_iff, List.forall₂_map_right_iff]
      exact hrs.imp fun log r ⟨b, hb, hadjusts⟩ => .adjusted hb hadjusts
    · rw [hcommit, Feed.served, CanonStateNotification.filtered, CanonStateNotification.logs, ← heq,
        List.filterMap_map, List.map_filterMap]
      rfl

/-! ## The steps of a task -/

variable {reads reads' : Prop} {t t' : FeedTask}

/-- A task has sent what it has taken, up to what it still has to send, except for items whose
    receipts could not be read. -/
structure Feeding (E : Type) (C : Crypto) (V : RpcConvert R) (chain : ReceiptsByNumber)
    (reads : Prop) (t : FeedTask) : Prop where
  known : t.feed.isCompliant = true → ∀ n ∈ t.heard, n.KnownIn chain
  left : ∃ rs done, List.Forall₂ (Becomes E chain t.feed) t.items rs ∧ t.sent.Sublist done ∧
    (reads → t.sent = done) ∧ done ++ rs.filterMap id = t.taken.flatMap (t.feed.served C V)
  status : ∀ halt, t.status ≠ .panicked halt

namespace Feeding

theorem start (feed : Feed) : Feeding E C V chain reads (.new feed) where
  known _ n hn := absurd hn List.not_mem_nil
  left := ⟨[], [], .nil, .refl _, fun _ => rfl, rfl⟩
  status halt hpanicked := by cases hpanicked

/-- A subscription goes on while the chain grows. -/
theorem mono (h : Feeding E C V chain reads t)
    (hchain : t.feed.isCompliant = true → ∀ b : ExecutedBlock, b.KnownIn chain → b.KnownIn chain')
    (hreads : reads' → reads) : Feeding E C V chain' reads' t where
  known hcompliant n hn :=
    ⟨(h.known hcompliant n hn).isCommit,
      fun b hb => hchain hcompliant b ((h.known hcompliant n hn).known b hb)⟩
  left := by
    obtain ⟨rs, done, hrs, hsent, hdone, heq⟩ := h.left
    exact ⟨rs, done, hrs.imp fun _ _ hbecomes => hbecomes.mono hchain, hsent,
      fun hr => hdone (hreads hr), heq⟩
  status := h.status

/-- A subscription may hear of known blocks. -/
theorem hear (h : Feeding E C V chain reads t)
    (hknown : t.feed.isCompliant = true → n.KnownIn chain) :
    Feeding E C V chain reads (t.hear n) := by
  unfold FeedTask.hear
  split
  · refine ⟨fun hcompliant n' hn' => ?_, h.left, h.status⟩
    rw [FeedTask.heard, ← List.append_assoc] at hn'
    rcases List.mem_append.1 hn' with hn' | hn'
    · exact h.known hcompliant n' hn'
    · rw [List.mem_singleton.1 hn']
      exact hknown hcompliant
  · exact h

/-- Changes that are skipped are not needed for the others. -/
theorem lag (h : Feeding E C V chain reads t) {kept : List CanonStateNotification}
    (hkept : kept.Sublist t.queue) : Feeding E C V chain reads { t with queue := kept } where
  known hcompliant n hn :=
    h.known hcompliant n ((hkept.append_left t.taken).subset hn)
  left := h.left
  status := h.status

/-- A subscription may take up the next notification. -/
theorem take (h : Feeding E C V chain reads t) (htake : t.take C V = some t') :
    Feeding E C V chain reads t' := by
  unfold FeedTask.take at htake
  split at htake
  · next n queue hitems hqueue =>
    cases htake
    have hheard : t.heard = t.taken ++ [n] ++ queue := by
      rw [FeedTask.heard, hqueue, List.append_assoc, List.singleton_append]
    obtain ⟨rs, done, hrs, hsent, hdone, heq⟩ := h.left
    rw [hitems, List.forall₂_nil_left_iff] at hrs
    rw [hrs, List.filterMap_nil, List.append_nil] at heq
    obtain ⟨rs', hrs', hserved⟩ := exists_becomes (E := E) (C := C) (V := V) t.feed
      fun hcompliant => h.known hcompliant n (by simp [hheard])
    refine ⟨fun hcompliant n' hn' => h.known hcompliant n' (hheard ▸ hn'),
      ⟨rs', done, hrs', hsent, hdone, ?_⟩, h.status⟩
    rw [hserved, heq, List.flatMap_append, List.flatMap_singleton]
  · cases htake

/-- A subscription may send the next item. -/
theorem next (h : Feeding E C V chain reads t) (hreads : api.Reads chain)
    (hsucceeds : reads → api.Succeeds) (hnext : t.next api = some t') :
    Feeding E C V chain reads t' := by
  unfold FeedTask.next at hnext
  split at hnext
  · cases hnext
  next item items hitems =>
  obtain ⟨rs, done, hrs, hsent, hdone, heq⟩ := h.left
  rw [hitems, List.forall₂_cons_left_iff] at hrs
  obtain ⟨r, rs, hbecomes, hrs, rfl⟩ := hrs
  -- What the item becomes moves from what is left to what is done.
  have heq' : done ++ r.toList ++ rs.filterMap id = t.taken.flatMap (t.feed.served C V) := by
    rw [← heq]
    cases r with
    | none => simp
    | some r => simp
  rcases hbecomes.convert hreads with hconvert | ⟨hconvert, hfailed⟩
  · rw [hconvert] at hnext
    cases hnext
    refine ⟨h.known, ⟨rs, done ++ r.toList, hrs, hsent.append_right _, fun hr => ?_, heq'⟩,
      h.status⟩
    rw [hdone hr]
  -- A failed read drops the item, so what was sent is only a part of what was done.
  · rw [hconvert] at hnext
    cases hnext
    refine ⟨h.known, ⟨rs, done ++ r.toList, hrs, ?_, fun hr => ?_, heq'⟩, h.status⟩
    · rw [Option.toList_none, List.append_nil]
      exact hsent.trans (List.sublist_append_left _ _)
    · exact absurd (hsucceeds hr) hfailed

end Feeding

/-! ## Runs -/

/-- After a commit, the receipts of a new block are found by its number. -/
theorem apply_commit (chain : ReceiptsByNumber) (number : UInt64) :
    CanonStateNotification.apply chain (.commit new) number =
      (lastEntry (new.map fun b => (b.number, b.receipts)) number).or (chain number) := by
  refine (foldl_update_eq (fun _ receipts => receipts) _ chain number).trans ?_
  rw [Option.map_id_fun', id]

/-- What is known stays known if blocks are added. -/
theorem ExecutedBlock.KnownIn.commit (h : b.KnownIn chain)
    (hextends : (CanonStateNotification.commit new).Extends chain) :
    b.KnownIn (CanonStateNotification.apply chain (.commit new)) where
  receipts_eq := by
    rw [apply_commit, lastEntry_eq_none, Option.none_or, h.receipts_eq]
    intro entry hentry heq
    obtain ⟨b', hb', rfl⟩ := List.mem_map.1 hentry
    have hnone := hextends.2 b' hb'
    rw [show b'.number = b.number from heq, h.receipts_eq] at hnone
    cases hnone
  first := h.first

/-- The blocks of a commit are known after it. -/
theorem knownIn_commit (hextends : (CanonStateNotification.commit new).Extends chain)
    (hfirst : ∀ b ∈ new, SystemFirst b.block b.receipts) :
    (CanonStateNotification.commit new).KnownIn
      (CanonStateNotification.apply chain (.commit new)) where
  isCommit := rfl
  known b hb := by
    refine ⟨?_, hfirst b hb⟩
    have hmem : (b.number, b.receipts) ∈ new.map fun b => (b.number, b.receipts) :=
      List.mem_map_of_mem hb
    rw [apply_commit, lastEntry_of_mem _ hmem, Option.some_or]
    rw [List.map_map]
    exact hextends.1

@[simp]
theorem FeedTask.hear_feed (t : FeedTask) (n : CanonStateNotification) :
    (t.hear n).feed = t.feed := by
  unfold FeedTask.hear
  split <;> rfl

theorem FeedTask.take_feed (h : t.take C V = some t') : t'.feed = t.feed ∧ t'.heard = t.heard := by
  unfold FeedTask.take at h
  split at h
  · next n queue hitems hqueue =>
    cases h
    exact ⟨rfl, by rw [heard, heard, hqueue, List.append_assoc, List.singleton_append]⟩
  · cases h

theorem FeedTask.next_feed (h : t.next api = some t') : t'.feed = t.feed ∧ t'.heard = t.heard := by
  unfold FeedTask.next at h
  split at h
  · cases h
  · split at h <;> cases h <;> exact ⟨rfl, rfl⟩

variable {flags : ComplianceFlags} {s₀ s : FeedNode ι} {ls : List (FeedLabel ι E)} {i j : ι}

/-- A task is the one that was set, or was there before. -/
theorem FeedNode.of_setTask (h : (s.setTask i t').tasks j = some t) :
    j = i ∧ t = t' ∨ s.tasks j = some t := by
  by_cases hj : j = i
  · subst hj
    simp only [FeedNode.setTask, Function.update_self] at h
    exact .inl ⟨rfl, (Option.some.inj h).symm⟩
  · simp only [FeedNode.setTask, Function.update_of_ne hj] at h
    exact .inr h

/-- Every subscription of a run is fed. -/
theorem feeding_of_run (hinit : (feeds (E := E) C V flags).init s₀)
    (hrun : Run (feeds C V flags) s₀ ls s) :
    ∀ i t, s.tasks i = some t → (t.feed.isCompliant = true → Grows ls) →
      Feeding E C V s.chain (∀ l ∈ ls, l.Succeeds) t := by
  refine hrun.invariant (P := fun ls s => ∀ i t, s.tasks i = some t →
    (t.feed.isCompliant = true → Grows ls) → Feeding E C V s.chain (∀ l ∈ ls, l.Succeeds) t)
    (fun i t ht => ?_) fun ls s l s' hfeeding hstep j t ht hgrows => ?_
  · rw [hinit] at ht
    cases ht
  have hreads : (∀ l' ∈ ls ++ [l], l'.Succeeds) → ∀ l' ∈ ls, l'.Succeeds :=
    fun h l' hl' => h l' (List.mem_append_left _ hl')
  -- A task that takes no step.
  have hother {t : FeedTask} (ht : s.tasks j = some t)
      (hgrows : t.feed.isCompliant = true → Grows (ls ++ [l])) :
      Feeding E C V s.chain (∀ l' ∈ ls ++ [l], l'.Succeeds) t :=
    (hfeeding j t ht fun h => (hgrows h).of_append).mono (fun _ _ => id) hreads
  cases hstep with
  | @notify n hextends =>
    obtain ⟨t₀, ht₀, rfl⟩ := Option.map_eq_some_iff.1 ht
    rw [FeedTask.hear_feed] at hgrows
    have hcommit : t₀.feed.isCompliant = true → ∃ new, n = .commit new ∧
        ∀ b ∈ new, SystemFirst b.block b.receipts := fun hcompliant =>
      ⟨_, hgrows hcompliant n (notifications_append ls _ ▸ List.mem_append_right _
        List.mem_cons_self)⟩
    refine ((hother ht₀ hgrows).mono (fun hcompliant b hb => ?_) id).hear fun hcompliant => ?_
    · obtain ⟨new, rfl, -⟩ := hcommit hcompliant
      exact hb.commit hextends
    · obtain ⟨new, rfl, hfirst⟩ := hcommit hcompliant
      exact knownIn_commit hextends hfirst
  | subscribe hnone hfeed =>
    rcases FeedNode.of_setTask ht with ⟨rfl, rfl⟩ | ht
    · exact .start _
    · exact hother ht hgrows
  | refuse hfeed => exact hother ht hgrows
  | lag hi hrunning hkept =>
    rcases FeedNode.of_setTask ht with ⟨rfl, rfl⟩ | ht
    · exact (hother hi hgrows).lag hkept
    · exact hother ht hgrows
  | take hi hrunning htake =>
    rcases FeedNode.of_setTask ht with ⟨rfl, rfl⟩ | ht
    · rw [(FeedTask.take_feed htake).1] at hgrows
      exact (hother hi hgrows).take htake
    · exact hother ht hgrows
  | @next i api _ _ hi hrunning hapi hnext =>
    rcases FeedNode.of_setTask ht with ⟨rfl, rfl⟩ | ht
    · rw [(FeedTask.next_feed hnext).1] at hgrows
      exact (hother hi hgrows).next hapi
        (fun hr => hr (.next j api) (List.mem_append_right _ List.mem_cons_self)) hnext
    · exact hother ht hgrows
  | close hi hrunning =>
    rcases FeedNode.of_setTask ht with ⟨rfl, rfl⟩ | ht
    · have h := hother hi hgrows
      exact ⟨h.known, h.left, fun halt hpanicked => by cases hpanicked⟩
    · exact hother ht hgrows

/-- A subscription has never lagged behind. -/
def KeepsUp (ls : List (FeedLabel ι E)) (i : ι) : Prop := ∀ kept, .lag i kept ∉ ls

/-- A subscription was accepted for a connection, and hears of some of the changes, in order. While
    it runs, it hears of all changes since then if it never lags behind. -/
structure Subscribed (flags : ComplianceFlags) (ls : List (FeedLabel ι E)) (i : ι) (t : FeedTask) :
    Prop where
  accepted : ∃ connection kind params, .subscribe i connection kind params ∈ ls ∧
    subscribe (flags.compliant connection) kind params = some t.feed
  heard : t.heard.Sublist (notifications ls)
  all : t.status = .running → KeepsUp ls i → t.heard <:+ notifications ls

omit [DecidableEq ι] in
/-- A step that is no change of the chain leaves what is known of a subscription as it is. -/
theorem Subscribed.append (h : Subscribed flags ls i t) {l : FeedLabel ι E}
    (hl : notifications [l] = []) : Subscribed flags (ls ++ [l]) i t where
  accepted := by
    obtain ⟨connection, kind, params, hmem, heq⟩ := h.accepted
    exact ⟨connection, kind, params, List.mem_append_left _ hmem, heq⟩
  heard := by
    rw [notifications_append, hl, List.append_nil]
    exact h.heard
  all hrunning hkeeps := by
    rw [notifications_append, hl, List.append_nil]
    exact h.all hrunning fun kept hlag => hkeeps kept (List.mem_append_left _ hlag)

omit [DecidableEq ι] in
/-- So it does for a task that has the same feed and has heard of the same changes. -/
theorem Subscribed.congr (h : Subscribed flags ls i t)
    (hsame : t'.feed = t.feed ∧ t'.heard = t.heard) (hrunning : t.status = .running) :
    Subscribed flags ls i t' where
  accepted := hsame.1 ▸ h.accepted
  heard := hsame.2 ▸ h.heard
  all _ hkeeps := hsame.2 ▸ h.all hrunning hkeeps

omit [DecidableEq ι] in
/-- A change is heard of by a task that runs, and by no other one. -/
theorem Subscribed.hear (h : Subscribed flags ls i t) (n : CanonStateNotification) :
    Subscribed flags (ls ++ [.notify n]) i (t.hear n) := by
  have hnotified : notifications (ls ++ [(.notify n : FeedLabel ι E)]) = notifications ls ++ [n] :=
    notifications_append ls _
  have haccepted : ∃ connection kind params,
      .subscribe i connection kind params ∈ ls ++ [FeedLabel.notify n] ∧
      subscribe (flags.compliant connection) kind params = some (t.hear n).feed := by
    obtain ⟨connection, kind, params, hmem, heq⟩ := h.accepted
    exact ⟨connection, kind, params, List.mem_append_left _ hmem, by rw [FeedTask.hear_feed, heq]⟩
  refine ⟨haccepted, ?_, ?_⟩
  all_goals
    rw [hnotified]
    unfold FeedTask.hear
    split
  · rw [FeedTask.heard, ← List.append_assoc]
    exact h.heard.append_right _
  · exact h.heard.trans (List.sublist_append_left _ _)
  -- A running task that never lagged has heard all changes since some time; now one more.
  · next hrunning =>
    intro _ hkeeps
    obtain ⟨earlier, hearlier⟩ :=
      h.all hrunning fun kept hlag => hkeeps kept (List.mem_append_left _ hlag)
    refine ⟨earlier, ?_⟩
    rw [← hearlier, FeedTask.heard, FeedTask.heard]
    simp only [List.append_assoc]
  · next hnot => exact fun hrunning => absurd hrunning hnot

/-- Every subscription of a run was made with the feed it has. -/
theorem subscribed_of_run (hinit : (feeds (E := E) C V flags).init s₀)
    (hrun : Run (feeds C V flags) s₀ ls s) :
    ∀ i t, s.tasks i = some t → Subscribed flags ls i t := by
  refine hrun.invariant (P := fun ls s => ∀ i t, s.tasks i = some t → Subscribed flags ls i t)
    (fun i t ht => ?_) fun ls s l s' hsubscribed hstep j t ht => ?_
  · rw [hinit] at ht
    cases ht
  -- Only a change that is heard and a lag affect what a task has heard. All other steps leave it,
  -- and the run has one more label.
  cases hstep with
  | @notify n hextends =>
    obtain ⟨t₀, ht₀, rfl⟩ := Option.map_eq_some_iff.1 ht
    exact (hsubscribed j t₀ ht₀).hear n
  | @subscribe i connection kind params feed hnone hfeed =>
    rcases FeedNode.of_setTask ht with ⟨rfl, rfl⟩ | ht
    · exact ⟨⟨connection, kind, params, List.mem_append_right _ List.mem_cons_self, hfeed⟩,
        List.nil_sublist _, fun _ _ => List.nil_suffix⟩
    · exact (hsubscribed j t ht).append rfl
  | refuse hfeed => exact (hsubscribed j t ht).append rfl
  | @lag i t₀ kept hi hrunning hkept =>
    rcases FeedNode.of_setTask ht with ⟨rfl, rfl⟩ | ht
    -- After a lag, nothing is claimed of all changes any more.
    · have h := (hsubscribed j t₀ hi).append (l := .lag j kept) rfl
      exact ⟨h.accepted, (hkept.append_left _).trans h.heard, fun _ hkeeps =>
        absurd List.mem_concat_self (hkeeps kept)⟩
    · exact (hsubscribed j t ht).append rfl
  | @take i t₀ t₁ hi hrunning htake =>
    rcases FeedNode.of_setTask ht with ⟨rfl, rfl⟩ | ht
    · exact ((hsubscribed j t₀ hi).append rfl).congr (FeedTask.take_feed htake) hrunning
    · exact (hsubscribed j t ht).append rfl
  | @next i api t₀ t₁ hi hrunning hapi hnext =>
    rcases FeedNode.of_setTask ht with ⟨rfl, rfl⟩ | ht
    · exact ((hsubscribed j t₀ hi).append rfl).congr (FeedTask.next_feed hnext) hrunning
    · exact (hsubscribed j t ht).append rfl
  | @close i t₀ hi hrunning =>
    rcases FeedNode.of_setTask ht with ⟨rfl, rfl⟩ | ht
    · have h := (hsubscribed j t₀ hi).append (l := .close j) rfl
      exact ⟨h.accepted, h.heard, fun hclosed => by cases hclosed⟩
    · exact (hsubscribed j t ht).append rfl

/-- The logs of the changes that a compliant task has heard of, as `eth_getLogs` serves them. -/
theorem Feeding.logs_eq (h : Feeding E C V chain reads t) (hfeed : t.feed = .logs filter true)
    (hreads : api.Reads chain) (hsucceeds : api.Succeeds) :
    ∃ logs, api.logs true (t.heard.flatMap (·.logs C filter)) = .ok logs ∧
      t.heard.flatMap (t.feed.served C V) = logs.map .log := by
  have hknown := h.known (by rw [hfeed]; rfl)
  rw [hfeed]
  -- The changes are those of one list of blocks.
  have hlogs : ∀ n ∈ t.heard, n.logs C filter = n.committed.flatMap (·.logs C filter) := by
    intro n hn
    rw [(hknown n hn).isCommit]
    rfl
  have hserved : ∀ n ∈ t.heard, (Feed.logs filter true).served C V n =
      ((n.committed.map ExecutedBlock.filtered).flatMap (·.logs C filter)).map .log := by
    intro n hn
    rw [(hknown n hn).isCommit]
    rfl
  have hblocks : ∀ b ∈ t.heard.flatMap (·.committed), b.KnownIn chain := by
    intro b hb
    obtain ⟨n, hn, hb⟩ := List.mem_flatMap.1 hb
    exact (hknown n hn).known b hb
  obtain ⟨rs, hrs, heq⟩ := adjusts_flatMap (E := E) (C := C) hblocks filter
  refine ⟨rs.filterMap id, ?_, ?_⟩
  · rw [EthApi.logs, if_pos rfl, List.flatMap_congr hlogs, ← List.flatMap_assoc]
    refine filterMapM_eq_of_forall₂ (hrs.imp fun log r hadjusted => ?_)
    obtain ⟨b, hb, -, hadjusts⟩ := hadjusted
    refine hadjusts api ?_
    rcases hreads b.number with hread | ⟨e, hfailed⟩
    · rw [hread, hb.receipts_eq]
    · exact absurd hfailed (hsucceeds _ _)
  · rw [heq, List.flatMap_congr hserved]
    simp only [List.map_flatMap, List.flatMap_map, List.flatMap_assoc]

/-- The number of logs of the system transactions. -/
def ExecutedBlock.systemLogCount (b : ExecutedBlock) : ℕ :=
  logCount (b.receipts.take b.block.systemTxCount)

/-- A log is sent if it is not one of a system transaction, with indices counted from those. -/
theorem EthApi.adjustLog_eq_some_iff {number : UInt64} {receipts : List EthereumReceipt} {k : ℕ}
    (hread : api.receiptsByBlock number = .ok (some receipts))
    (hcut : CutAt isSystemReceipt k receipts) {log sent : RpcLog} {i j : ℕ}
    (hi : log.transactionIndex = some i) (hj : log.logIndex = some j)
    (hnumber : log.blockNumber = some number) :
    api.adjustLog log = .ok (some sent) ↔ k ≤ i ∧ logCount (receipts.take k) ≤ j ∧
      sent = { log with
        transactionIndex := some (i - k), logIndex := some (j - logCount (receipts.take k)) } := by
  set n := logCount (receipts.take k) with hn
  rw [adjustLog_eq hread hcut hi hj hnumber]
  by_cases hk : i < k
  · rw [if_pos hk]
    exact ⟨fun h => (by cases h), fun h => absurd h.1 (Nat.not_le.2 hk)⟩
  rw [if_neg hk, checkedSub_of_le (Nat.not_lt.1 hk), ← hn]
  -- The indices of a log may belong to another block than the receipts do, so that this may fail.
  by_cases hle : n ≤ j
  · rw [checkedSub_of_le hle]
    constructor
    · intro h
      cases h
      exact ⟨Nat.not_lt.1 hk, hle, rfl⟩
    · rintro ⟨-, -, rfl⟩
      rfl
  · have hfailed : checkedSub j n = .error (.panic "attempt to subtract with overflow") :=
      if_neg hle
    rw [hfailed]
    exact ⟨fun h => (by cases h), fun h => absurd h.2.1 hle⟩

/-- A log of a block that is replaced is removed as it was sent if and only if the other block has
    as many system transactions, and as many logs of these. -/
theorem removed_log_iff {b b' : ExecutedBlock} {log sent : RpcLog} {api api' : EthApi E}
    (hfirst : SystemFirst b.block b.receipts) (hfirst' : SystemFirst b'.block b'.receipts)
    (hread : api.receiptsByBlock b.number = .ok (some b.receipts))
    (hread' : api'.receiptsByBlock b.number = .ok (some b'.receipts))
    (hlog : log ∈ b.logs C filter) (hsent : api.adjustLog log = .ok (some sent)) :
    api'.adjustLog log.remove = .ok (some sent.remove) ↔
      b'.block.systemTxCount = b.block.systemTxCount ∧ b'.systemLogCount = b.systemLogCount := by
  obtain ⟨i, j, hi, hj, hnumber, -, -⟩ := HlHeader.mem_rpcLogs (List.mem_filter.1 hlog).1
  obtain ⟨hki, hnj, rfl⟩ :=
    (EthApi.adjustLog_eq_some_iff hread hfirst.cut_receipts hi hj hnumber).1 hsent
  have hi' : log.remove.transactionIndex = some i := hi
  have hj' : log.remove.logIndex = some j := hj
  rw [EthApi.adjustLog_eq_some_iff hread' hfirst'.cut_receipts hi' hj' hnumber]
  refine ⟨fun ⟨hki', hnj', heq⟩ => ?_, fun ⟨hk, hn⟩ => ?_⟩
  -- Equal numbers before the removal and after it mean equal counts.
  · have htx := congrArg RpcLog.transactionIndex heq
    have hlogIndex := congrArg RpcLog.logIndex heq
    simp only [RpcLog.remove, Option.some.injEq] at htx hlogIndex
    change b.systemLogCount ≤ j at hnj
    change b'.systemLogCount ≤ j at hnj'
    change j - b.systemLogCount = j - b'.systemLogCount at hlogIndex
    exact ⟨by omega, by omega⟩
  · change _ ∧ b'.systemLogCount ≤ j ∧ _ = { log.remove with
      transactionIndex := some (i - b'.block.systemTxCount)
      logIndex := some (j - b'.systemLogCount) }
    rw [hk, hn]
    exact ⟨hki, hnj, rfl⟩

end Feeds

/-! ### Two clients -/

/-- The block of `mixedTxs`. -/
def mixedExecuted : ExecutedBlock := ⟨mixedRecovered, mixedReceipts⟩

theorem systemFirst_mixedExecuted : SystemFirst mixedExecuted.block mixedExecuted.receipts :=
  ⟨rfl, ⟨by decide, by decide, by decide⟩, ⟨by decide, by decide, by decide⟩, by decide⟩

/-- The provider of a chain. -/
def readingApi (chain : ReceiptsByNumber) : EthApi Unit :=
  { singleBlock mixedCrypto mixedRecovered mixedReceipts with
    receiptsByBlock := fun number => .ok (chain number) }

/-- The chain of the block. -/
def mixedChain : ReceiptsByNumber :=
  CanonStateNotification.apply (fun _ => none) (.commit [mixedExecuted])

/-- A client asks to be treated as one of `hl-node`, and another one, which does not, lags
    behind. -/
def twoClients : List (FeedLabel Bool Unit) :=
  [.subscribe true ⟨true, true, some "hl=true".toList⟩ .logs none,
    .subscribe false ⟨true, true, none⟩ .logs none,
    .notify (.commit [mixedExecuted]),
    .lag false [],
    .take true,
    .next true (readingApi mixedChain),
    .next true (readingApi mixedChain)]

/-- A block without transactions, at the same number. -/
def emptiedRecovered : RecoveredBlock where
  block :=
    { header :=
        { mixedRecovered.block.header with
          extras := { logsBloomWithSystemTxs := 0, systemTxCount := 0 } }
      body :=
        { mixedRecovered.block.body with
          inner := { transactions := [], ommers := [], withdrawals := none } } }
  senders := []
  length_senders := rfl

/-- The log that was sent as the first one of its block is removed as the second one. -/
theorem removed_log_iff_emptied : ∃ log sent : RpcLog,
    (singleBlock mixedCrypto mixedRecovered mixedReceipts).adjustLog log = .ok (some sent) ∧
    sent.logIndex = some 0 ∧
    (singleBlock mixedCrypto emptiedRecovered []).adjustLog log.remove ≠
      .ok (some sent.remove) := by
  have hfirst : SystemFirst emptiedRecovered [] :=
    ⟨rfl, ⟨by decide, by decide, by decide⟩, ⟨by decide, by decide, by decide⟩, by decide⟩
  have hlog : mixedRecovered.block.header.rpcLog mixedCrypto 1 (emptyTransfer 1) 1
      ⟨0xbeef, [], []⟩ ∈ mixedExecuted.logs mixedCrypto fun _ => true := by decide
  have hread : (singleBlock mixedCrypto mixedRecovered mixedReceipts).receiptsByBlock
      mixedExecuted.number = .ok (some mixedExecuted.receipts) := rfl
  have hread' : (singleBlock mixedCrypto emptiedRecovered []).receiptsByBlock
      mixedExecuted.number = .ok (some (⟨emptiedRecovered, []⟩ : ExecutedBlock).receipts) := rfl
  refine ⟨mixedRecovered.block.header.rpcLog mixedCrypto 1 (emptyTransfer 1) 1 ⟨0xbeef, [], []⟩, _,
    rfl, rfl, fun h => ?_⟩
  have hcounts := (removed_log_iff systemFirst_mixedExecuted hfirst hread hread' hlog rfl).1 h
  exact absurd hcounts.1 (by decide)

end Nanoreth
