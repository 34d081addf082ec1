import Nanoreth.Evm.Precompiles
import Nanoreth.Lib.SingleFlight
import Mathlib.Tactic.SplitIfs

/-!
# Forwarding read precompiles

At the head of the chain, calls to read precompiles are forwarded to another node
(`read_precompile_forwarder.rs`). Its answers are cached for the head, and calls for the
same key at the same time share one request. A call takes the lock of the cache twice:
to find a response, join a request or become its leader (`lookup`), and, as the leader, to
store the answer (`publish`). The request is made without the lock, so that the calls
may interleave in any way.

This is a single-flight cache (`refines_singleFlight`). When the cache is full, responses
for older blocks are evicted, and all responses if this is not enough; it never exceeds its
capacity (`size_publish_le`).
-/

namespace Nanoreth

open Transition SingleFlight Overwrite

/-- What a response is cached for. -/
structure CacheKey where
  blockNumber : UInt64
  headHash : B256
  address : Address
  input : Bytes
  deriving DecidableEq, Hashable

/-- What the upstream said. -/
inductive Response
  | output (bytes : Bytes)
  | rejected
  deriving DecidableEq

/-- An error that a server answers with. -/
structure ErrorObject where
  code : ℤ
  message : String
  data : Option String
  deriving DecidableEq

/-- Why a request to the upstream fails. -/
inductive ClientError
  | call (error : ErrorObject)
  | other (message : String)
  deriving DecidableEq

/-- The error of a forwarded call: the upstream does not answer, or with an error. -/
inductive ForwardError
  | timedOut (address : Address)
  | failed (address : Address) (error : ClientError)
  deriving DecidableEq

/-- The answer of the upstream, if there is one in time. -/
abbrev Upstream := Option (Except ClientError Bytes)

/-- The code that a node answers with if the execution fails. -/
def executionErrorCode : ℤ := -32003

/-- Whether the upstream ran the precompile, which refused the input. -/
def isRejectedInput (err : ErrorObject) : Bool :=
  err.code == executionErrorCode && decide (1 < (err.message.splitOn "PrecompileError").length)

/-- The result of a request. -/
def request (address : Address) : Upstream → Except ForwardError Response
  | none => .error (.timedOut address)
  | some (.ok bytes) => .ok (.output bytes)
  | some (.error (.call err)) =>
    if isRejectedInput err then .ok .rejected else .error (.failed address (.call err))
  | some (.error error) => .error (.failed address error)

/-- The capacity of the cache. -/
def maxCacheEntries : ℕ := 16384

/-- The cache. Requests in flight are told by the calls that made them. -/
structure Cache where
  newestBlockNumber : UInt64
  responses : Std.HashMap CacheKey Response
  inFlight : Std.HashMap CacheKey ℕ

namespace Cache

/-- Makes room for a response: those for blocks the chain has moved past go first. -/
def evict (responses : Std.HashMap CacheKey Response) (newest : UInt64) :
    Std.HashMap CacheKey Response :=
  if maxCacheEntries ≤ responses.size then
    let retained := responses.filter fun key _ => decide (newest ≤ key.blockNumber)
    if maxCacheEntries ≤ retained.size then ∅ else retained
  else responses

/-- What the leader of a request does with its result, holding the lock. -/
def publish (cache : Cache) (key : CacheKey) (result : Except ForwardError Response) : Cache :=
  let cache := { cache with inFlight := cache.inFlight.erase key }
  match result with
  -- Errors are not cached, so that the next call asks again.
  | .error _ => cache
  | .ok response =>
    let newest := max cache.newestBlockNumber key.blockNumber
    { cache with
      newestBlockNumber := newest
      responses := (evict cache.responses newest).insert key response }

end Cache

/-- The forwarder, with the results of the requests and the calls of `resolve`. -/
structure Forwarder where
  cache : Cache
  results : ℕ → Option (Except ForwardError Response)
  calls : ℕ → Option (Call CacheKey Response ForwardError ℕ)

/-- A step of a call of `resolve`. -/
inductive ForwarderLabel
  | invoke (id : ℕ) (key : CacheKey)
  | lookup (id : ℕ)
  | request (id : ℕ) (address : Address) (input : Bytes) (upstream : Upstream)
  | publish (id : ℕ)
  | complete (id : ℕ)
  | wake (id : ℕ)

namespace Forwarder

/-- A call goes on to a phase. -/
def setCall (s : Forwarder) (id : ℕ) (key : CacheKey)
    (phase : Phase Response ForwardError ℕ) : Forwarder :=
  { s with calls := Function.update s.calls id (some ⟨key, phase⟩) }

/-- The steps of `resolve`. A follower waits until the result of its leader is there. -/
def step (s : Forwarder) : ForwarderLabel → Option Forwarder
  | .invoke id key =>
    match s.calls id with
    | none => some (s.setCall id key .start)
    | some _ => none
  | .lookup id =>
    match s.calls id with
    | some ⟨key, .start⟩ =>
      -- Both lookups and the insertion happen under one lock, hence in one step.
      match s.cache.responses[key]? with
      | some cached => some (s.setCall id key (.returned .cached (.ok cached)))
      | none =>
        match s.cache.inFlight[key]? with
        | some leader => some (s.setCall id key (.waiting leader))
        | none =>
          some { s.setCall id key .leading with
            cache := { s.cache with inFlight := s.cache.inFlight.insert key id } }
    | _ => none
  | .request id address input upstream =>
    match s.calls id with
    | some ⟨key, .leading⟩ =>
      -- The label tells what was asked upstream; it has to be what the key is for.
      if key.address = address ∧ key.input = input then
        some (s.setCall id key (.answered (request address upstream)))
      else none
    | _ => none
  | .publish id =>
    match s.calls id with
    | some ⟨key, .answered result⟩ =>
      some { s.setCall id key (.published result) with cache := s.cache.publish key result }
    | _ => none
  | .complete id =>
    match s.calls id with
    | some ⟨key, .published result⟩ =>
      some { s.setCall id key (.returned .led result) with
        results := Function.update s.results id (some result) }
    | _ => none
  | .wake id =>
    match s.calls id with
    | some ⟨key, .waiting leader⟩ =>
      -- Publishing is not enough: who waits is woken when the leader completes.
      match s.results leader with
      | some result => some (s.setCall id key (.returned (.joined leader) result))
      | none => none
    | _ => none

/-- A new forwarder. -/
def new : Forwarder where
  cache := ⟨0, ∅, ∅⟩
  results _ := none
  calls _ := none

end Forwarder

/-- The forwarder, under any number of calls. -/
def forwarder : System Forwarder ForwarderLabel where
  init s := s = .new
  step s l s' := s.step l = some s'

/-! ## The cache -/

namespace Cache

variable {responses : Std.HashMap CacheKey Response} {cache : Cache} {key : CacheKey}
  {result : Except ForwardError Response}

/-- Eviction only removes responses. -/
theorem getElem?_of_evict {newest : UInt64} {response : Response}
    (h : (evict responses newest)[key]? = some response) : responses[key]? = some response := by
  simp only [evict] at h
  split_ifs at h
  · rw [Std.HashMap.getElem?_empty] at h
    cases h
  · rw [Std.HashMap.getElem?_filter'] at h
    exact (Option.filter_eq_some_iff.1 h).1
  · exact h

theorem evict_of_lt {newest : UInt64} (h : responses.size < maxCacheEntries) :
    evict responses newest = responses :=
  if_neg (not_le.2 h)

/-- A response is evicted if the cache is full, and it is for an older block or there are too many
    for the newest ones. -/
theorem getElem?_evict_eq_none_iff {newest : UInt64} {response : Response}
    (h : responses[key]? = some response) :
    (evict responses newest)[key]? = none ↔ maxCacheEntries ≤ responses.size ∧
      (key.blockNumber < newest ∨ maxCacheEntries ≤
        (responses.filter fun key _ => decide (newest ≤ key.blockNumber)).size) := by
  simp only [evict]
  split_ifs with hfull hmany
  · exact iff_of_true Std.HashMap.getElem?_empty ⟨hfull, .inr hmany⟩
  · rw [Std.HashMap.getElem?_filter', h, Option.filter_some, or_iff_left hmany, and_iff_right hfull,
      ← UInt64.not_le]
    simp
  · simp [h, hfull]

/-- A response for an older block is evicted, if the cache is full. -/
theorem getElem?_evict_of_full {newest : UInt64} (hfull : maxCacheEntries ≤ responses.size)
    (hold : key.blockNumber < newest) : (evict responses newest)[key]? = none := by
  cases h : responses[key]? with
  | none =>
    rw [Option.eq_none_iff_forall_ne_some]
    intro response hresponse
    cases h.symm.trans (getElem?_of_evict hresponse)
  | some response => exact (getElem?_evict_eq_none_iff h).2 ⟨hfull, .inl hold⟩

/-- There is room for a response after eviction. -/
theorem size_evict_lt (responses : Std.HashMap CacheKey Response) (newest : UInt64) :
    (evict responses newest).size < maxCacheEntries := by
  simp only [evict]
  split_ifs with hfull hfull'
  · rw [Std.HashMap.size_empty]
    decide
  · exact not_le.1 hfull'
  · exact not_le.1 hfull

/-- The cache never exceeds its capacity. -/
theorem size_publish_le (h : cache.responses.size ≤ maxCacheEntries) :
    (cache.publish key result).responses.size ≤ maxCacheEntries := by
  cases result with
  | error error => exact h
  | ok response =>
    refine Std.HashMap.size_insert_le.trans ?_
    exact size_evict_lt _ _

/-- Publishing a result ends the request for its key. -/
theorem inFlight_publish : (fun k => (cache.publish key result).inFlight[k]?) =
    Function.update (fun k => cache.inFlight[k]?) key none := by
  cases result with
  | error error => exact getElem?_erase_eq _ key
  | ok response => exact getElem?_erase_eq _ key

/-- A success is stored, a failure is not, and other responses are only removed. -/
theorem stores_publish : Stores (fun k => cache.responses[k]?) key result
    (fun k => (cache.publish key result).responses[k]?) where
  error e he := by
    rw [he]
    rfl
  ok response hresponse := by
    rw [hresponse]
    exact Std.HashMap.getElem?_insert_self
  lost k response hk h := by
    cases result with
    | error error => exact h
    | ok response' =>
      change ((evict cache.responses _).insert key response')[k]? = _ at h
      rw [congrFun (getElem?_insert_eq _ key response') k, Function.update_of_ne hk] at h
      exact getElem?_of_evict h

end Cache

/-! ## Refinement -/

/-- The state as that of a single-flight cache. -/
def Forwarder.toSingleFlight (s : Forwarder) : State CacheKey Response ForwardError ℕ where
  responses key := s.cache.responses[key]?
  inFlight key := s.cache.inFlight[key]?
  results := s.results
  calls := s.calls

/-- A step as that of a single-flight cache. -/
def ForwarderLabel.toSingleFlight : ForwarderLabel → Label CacheKey Response ForwardError ℕ
  | .invoke id key => .invoke id key
  | .lookup id => .lookup id
  | .request id address _ upstream => .answer id (Nanoreth.request address upstream)
  | .publish id => .publish id
  | .complete id => .complete id
  | .wake id => .wake id

/-- The forwarder is a single-flight cache. -/
theorem refines_singleFlight :
    Refines forwarder (protocol CacheKey Response ForwardError ℕ) Forwarder.toSingleFlight
      ForwarderLabel.toSingleFlight where
  init s hs := by
    obtain rfl : s = .new := hs
    exact ⟨fun _ => Std.HashMap.getElem?_empty, fun _ => Std.HashMap.getElem?_empty,
      fun _ => rfl, fun _ => rfl⟩
  step s l s' h := by
    change s.step l = some s' at h
    -- A branch of `step` that is enabled is a step of the protocol; the maps of the cache are
    -- updated at one key.
    cases l with
    | invoke id key =>
      simp only [Forwarder.step] at h
      split at h
      · next hnone =>
        cases h
        exact ⟨hnone, rfl⟩
      · cases h
    | lookup id =>
      simp only [Forwarder.step] at h
      split at h
      · next key hcall =>
        refine ⟨key, hcall, ?_⟩
        split at h
        · next cached hresponse =>
          cases h
          exact .hit hresponse
        · next hresponse =>
          split at h
          · next leader hflight =>
            cases h
            exact .join hresponse hflight
          · next hflight =>
            cases h
            change Lookup s.toSingleFlight id key
              { s.toSingleFlight.setCall id key .leading with
                inFlight := fun k => (s.cache.inFlight.insert key id)[k]? }
            rw [getElem?_insert_eq]
            exact .lead hresponse hflight
      · cases h
    | request id address input upstream =>
      simp only [Forwarder.step] at h
      split at h
      · next key hcall =>
        split_ifs at h
        cases h
        exact ⟨key, hcall, rfl⟩
      · cases h
    | publish id =>
      simp only [Forwarder.step] at h
      split at h
      · next key result hcall =>
        cases h
        refine ⟨key, result, _, hcall, Cache.stores_publish, ?_⟩
        rw [Forwarder.toSingleFlight, Cache.inFlight_publish]
        rfl
      · cases h
    | complete id =>
      simp only [Forwarder.step] at h
      split at h
      · next key result hcall =>
        cases h
        exact ⟨key, result, hcall, rfl⟩
      · cases h
    | wake id =>
      simp only [Forwarder.step] at h
      split at h
      · next key leader hcall =>
        split at h
        · next result hresult =>
          cases h
          exact ⟨key, leader, result, hcall, hresult, rfl⟩
        · cases h
      · cases h

/-! ## Runs -/

variable {s₀ s s' : Forwarder} {ls : List ForwarderLabel}

/-- Only the leader of a key makes a request, which is for its address and input. -/
theorem Forwarder.step_request {id : ℕ} {address : Address} {input : Bytes} {upstream : Upstream}
    (h : s.step (.request id address input upstream) = some s') :
    ∃ key, s.calls id = some ⟨key, .leading⟩ ∧ key.address = address ∧ key.input = input := by
  simp only [step] at h
  split at h
  · next key hcall =>
    split_ifs at h with hkey
    exact ⟨key, hcall, hkey⟩
  · cases h

/-- The calls were invoked in a run, and their answers are those of the upstream to requests
    for their keys. -/
def History (ls : List ForwarderLabel) (s : Forwarder) : Prop :=
  ∀ id key phase, s.calls id = some ⟨key, phase⟩ → .invoke id key ∈ ls ∧
    ∀ result, phase.answer = some result → ∃ upstream,
      .request id key.address key.input upstream ∈ ls ∧ request key.address upstream = result

/-- A step continues a history. -/
theorem History.step {l : ForwarderLabel} (h : History ls s) (hstep : forwarder.step s l s') :
    History (ls ++ [l]) s' := by
  intro id key phase hcall
  rcases call_before_step (refines_singleFlight.step s l s' hstep) hcall with
    ⟨hl, rfl⟩ | ⟨before, hbefore, hanswer⟩
  · -- The call is new, so that it has no answer.
    obtain rfl : l = .invoke id key := by
      cases l with
      | invoke =>
        cases hl
        rfl
      | lookup | request | publish | complete | wake => cases hl
    exact ⟨List.mem_append_right _ List.mem_cons_self, nofun⟩
  · obtain ⟨hinvoke, hold⟩ := h id key before hbefore
    refine ⟨List.mem_append_left _ hinvoke, fun result hresult => ?_⟩
    rcases hanswer result hresult with hresult | hl
    · obtain ⟨upstream, hmem, hrequest⟩ := hold result hresult
      exact ⟨upstream, List.mem_append_left _ hmem, hrequest⟩
    · cases l with
      | request id' address input upstream =>
        -- The request is for the address and the input of the key of its call.
        cases hl
        obtain ⟨key', hleading, rfl, rfl⟩ := Forwarder.step_request hstep
        obtain ⟨rfl, -⟩ := Call.mk.inj (Option.some.inj (hleading.symm.trans hbefore))
        exact ⟨upstream, List.mem_append_right _ List.mem_cons_self, rfl⟩
      | invoke | lookup | publish | complete | wake => cases hl

/-- The labels of a run are its history. -/
theorem history_of_run (hinit : forwarder.init s₀) (hrun : Run forwarder s₀ ls s) :
    History ls s := by
  refine hrun.invariant (P := History) ?_ fun _ _ _ _ => History.step
  obtain rfl : s₀ = .new := hinit
  exact nofun

/-- Responses are only stored, and evicted, when a result is published. -/
theorem Forwarder.responses_of_step {l : ForwarderLabel} (h : s.step l = some s') :
    (s'.cache.responses = s.cache.responses ∧
      s'.cache.newestBlockNumber = s.cache.newestBlockNumber) ∨
    ∃ id key result, l = .publish id ∧
      s.calls id = some ⟨key, .answered result⟩ ∧ s'.cache = s.cache.publish key result := by
  cases l with
  | publish id =>
    simp only [step] at h
    split at h
    · next key result hcall =>
      cases h
      exact .inr ⟨id, key, result, rfl, hcall, rfl⟩
    · cases h
  | invoke | lookup | request | complete | wake =>
    -- These steps change the calls, and the requests in flight, only.
    left
    simp only [step] at h
    repeat' split at h
    all_goals cases h <;> exact ⟨rfl, rfl⟩

/-- The cache does not exceed its limit. -/
theorem size_responses_le (h : Reachable forwarder s) :
    s.cache.responses.size ≤ maxCacheEntries := by
  refine h.invariant (P := fun s => s.cache.responses.size ≤ maxCacheEntries) ?_ ?_
  · rintro s rfl
    exact Nat.zero_le _
  · intro s l s' hs hstep
    rcases Forwarder.responses_of_step hstep with ⟨hsame, -⟩ | ⟨id, key, result, -, -, hcache⟩
    · rw [hsame]
      exact hs
    · rw [hcache]
      exact Cache.size_publish_le hs

/-- The forwarder is a correct single-flight cache, in every state of every run.

    * There is at most one outstanding request for a key, and the keys in flight are those
      with an outstanding request that is not published.
    * A follower waits for a leader of its key; it can return once the leader has, and it
      returns the result of the leader.
    * A cached response is a successful answer of the upstream to a request for its address
      and input, made by a call with that key. Publishing a failure stores nothing.
    * The cache does not exceed its capacity. -/
theorem forwarder_singleFlight (hinit : forwarder.init s₀) (hrun : Run forwarder s₀ ls s) :
    (∀ key id id', s.toSingleFlight.Outstanding key id → s.toSingleFlight.Outstanding key id' →
      id = id') ∧
    (∀ key, key ∈ s.cache.inFlight ↔ ∃ id, s.toSingleFlight.Outstanding key id) ∧
    (∀ id key leader, s.calls id = some ⟨key, .waiting leader⟩ →
      s.toSingleFlight.Leader key leader ∧
      ∀ result, s.calls leader = some ⟨key, .returned .led result⟩ →
        s.step (.wake id) = some (s.setCall id key (.returned (.joined leader) result))) ∧
    (∀ id key leader result, s.calls id = some ⟨key, .returned (.joined leader) result⟩ →
      s.calls leader = some ⟨key, .returned .led result⟩) ∧
    (∀ key response, s.cache.responses[key]? = some response → ∃ id upstream,
      .invoke id key ∈ ls ∧ .request id key.address key.input upstream ∈ ls ∧
        request key.address upstream = .ok response) ∧
    (∀ id key error s', s.calls id = some ⟨key, .answered (.error error)⟩ →
      s.step (.publish id) = some s' → s'.cache.responses = s.cache.responses) ∧
    s.cache.responses.size ≤ maxCacheEntries := by
  have hreachable : Reachable forwarder s := ⟨s₀, ls, hinit, hrun⟩
  have hinv : Inv s.toSingleFlight := inv_of_reachable (refines_singleFlight.reachable hreachable)
  refine ⟨fun key id id' h h' => ?_, fun key => ?_, fun id key leader hcall => ?_, hinv.joined,
    fun key response hresponse => ?_, fun id key error s' hcall hstep => ?_,
    size_responses_le hreachable⟩
  · rw [← hinv.inFlight_iff] at h h'
    exact Option.some.inj (h.symm.trans h')
  · rw [← Std.HashMap.isSome_getElem?_iff_mem, Option.isSome_iff_exists]
    exact exists_congr fun id => hinv.inFlight_iff key id
  · refine ⟨hinv.waiting id key leader hcall, fun result hled => ?_⟩
    have hresult : s.results leader = some result := hinv.completed leader key result hled
    simp only [Forwarder.step, hcall, hresult]
  · -- What is cached was published, and what was published is an answer of the upstream.
    obtain ⟨id, phase, hcall, hpublication⟩ := hinv.stored key response hresponse
    obtain ⟨hinvoke, hanswer⟩ := history_of_run hinit hrun id key phase hcall
    obtain ⟨upstream, hrequest⟩ := hanswer _ (Phase.answer_of_publication hpublication)
    exact ⟨id, upstream, hinvoke, hrequest⟩
  · simp only [Forwarder.step, hcall] at hstep
    cases hstep
    rfl

/-! ## Calls that return -/

namespace Forwarder

variable {id leader : ℕ} {key : CacheKey} {result : Except ForwardError Response}

theorem step_invoke (h : s.calls id = none) (key : CacheKey) :
    s.step (.invoke id key) = some (s.setCall id key .start) := by
  simp only [step, h]

/-- A call returns the response that is in the cache. -/
theorem step_hit (h : s.calls id = some ⟨key, .start⟩) {response : Response}
    (hresponse : s.cache.responses[key]? = some response) :
    s.step (.lookup id) = some (s.setCall id key (.returned .cached (.ok response))) := by
  simp only [step, h, hresponse]

/-- Without a response, a call waits for the leader of its key. -/
theorem step_join (h : s.calls id = some ⟨key, .start⟩) (hresponse : s.cache.responses[key]? = none)
    (hflight : s.cache.inFlight[key]? = some leader) :
    s.step (.lookup id) = some (s.setCall id key (.waiting leader)) := by
  simp only [step, h, hresponse, hflight]

/-- Without a leader, it becomes one. -/
theorem step_lead (h : s.calls id = some ⟨key, .start⟩) (hresponse : s.cache.responses[key]? = none)
    (hflight : s.cache.inFlight[key]? = none) :
    s.step (.lookup id) = some { s.setCall id key .leading with
      cache := { s.cache with inFlight := s.cache.inFlight.insert key id } } := by
  simp only [step, h, hresponse, hflight]

/-- The answer of the leader is what the request returns. -/
theorem step_answer (h : s.calls id = some ⟨key, .leading⟩) (upstream : Upstream) :
    s.step (.request id key.address key.input upstream) =
      some (s.setCall id key (.answered (request key.address upstream))) := by
  simp only [step, h, and_self, if_true]

theorem step_publish (h : s.calls id = some ⟨key, .answered result⟩) :
    s.step (.publish id) =
      some { s.setCall id key (.published result) with cache := s.cache.publish key result } := by
  simp only [step, h]

/-- The leader returns, and its result is there for those who wait. -/
theorem step_complete (h : s.calls id = some ⟨key, .published result⟩) :
    s.step (.complete id) = some { s.setCall id key (.returned .led result) with
      results := Function.update s.results id (some result) } := by
  simp only [step, h]

/-- A call that waits returns the result of its leader. -/
theorem step_wake (h : s.calls id = some ⟨key, .waiting leader⟩)
    (hresult : s.results leader = some result) :
    s.step (.wake id) = some (s.setCall id key (.returned (.joined leader) result)) := by
  simp only [step, h, hresult]

end Forwarder

/-- A call for the price of an asset. -/
def priceKey : CacheKey := ⟨1, 0, 0x807, [0]⟩

/-- Two calls for the same key share a request. -/
theorem forwarder_singleFlight_shared : ∃ s,
    Run forwarder .new [.invoke 0 priceKey, .invoke 1 priceKey, .lookup 0, .lookup 1,
      .request 0 priceKey.address priceKey.input (some (.ok [42])), .publish 0, .complete 0,
      .wake 1] s ∧
    s.calls 1 = some ⟨priceKey, .returned (.joined 0) (.ok (.output [42]))⟩ ∧
    s.calls 0 = some ⟨priceKey, .returned .led (.ok (.output [42]))⟩ ∧
    s.cache.responses.size ≤ maxCacheEntries := by
  have hrun : Run forwarder .new [.invoke 0 priceKey, .invoke 1 priceKey, .lookup 0, .lookup 1,
      .request 0 priceKey.address priceKey.input (some (.ok [42])), .publish 0, .complete 0,
      .wake 1] _ :=
    .cons (Forwarder.step_invoke rfl priceKey) <| .cons (Forwarder.step_invoke rfl priceKey) <|
      .cons (Forwarder.step_lead rfl Std.HashMap.getElem?_empty Std.HashMap.getElem?_empty) <|
      .cons (Forwarder.step_join rfl Std.HashMap.getElem?_empty
        Std.HashMap.getElem?_insert_self) <|
      .cons (Forwarder.step_answer rfl _) <| .cons (Forwarder.step_publish rfl) <|
      .cons (Forwarder.step_complete rfl) <| .cons (Forwarder.step_wake rfl rfl) .nil
  have h := forwarder_singleFlight rfl hrun
  exact ⟨_, hrun, rfl, h.2.2.2.1 1 _ 0 _ rfl, h.2.2.2.2.2.2⟩

end Nanoreth
