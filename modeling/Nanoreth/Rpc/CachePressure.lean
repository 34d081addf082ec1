import Nanoreth.Evm.Dispatch
import Nanoreth.Evm.ForwarderAgreement
import Nanoreth.Rpc.Call

/-!
# Cache pressure at the head

Which responses of the forwarder are evicted while the chain grows. The calls that reach it are
made at the head, whose hash is in their keys (`pressure`). But the number in their keys is that of
the block environment, which a request may override (`unrecorded_overridden`).

When the cache is full, the responses for blocks below the newest number are evicted first. The
newest number is the greatest one that a response was published for, so that one request with a
great number makes the responses of the head the old ones: they are evicted first, however few
there are (`best_evicted`).

If no number is greater than that of the head it is called at, then neither is the newest one, and
a response of the head is evicted only if the cache is full of them (`best_kept`).
-/

namespace Nanoreth

open Transition SingleFlight Overwrite

/-! ## The keys of calls -/

section Key

variable {D O R T X P E : Type} {api : HlEthApi P} {info : ChainInfo}
  {forwarder : ReadPrecompileForwarder} {hooks : CallHooks D O R T X} {cfg : CfgEnv}
  {block : HlBlock} {request : TransactionRequest R} {db db' : D} {overrides : EvmOverrides O}
  {env : EvmEnv} {tx : RpcTxEnv T} {extras : HlExtras}
  {atHead : Option ScopedReadPrecompileForwarder}

/-- A call on the state of the head is forwarded for the hash of the head, and for the number that
    the request sets. -/
theorem unrecorded_overridden (hhead : block.header.inner.number = info.bestNumber)
    (hprepare : prepareCallEnv hooks (some forwarder) ⟨cfg, evmEnv block.header⟩ request db
      overrides = .ok (env, tx, db'))
    (hcall : ((api.withForwarder info (some forwarder)).callPrecompiles env tx :
      Except (RpcError E P) _) = .ok (extras, atHead)) (address : Address) (data : Bytes)
    (gas : UInt64) :
    unrecorded env.blockEnv.number atHead address data gas =
      forwarder address data gas (saturatingToU64 (overrides.number (evmEnv block.header)))
        info.bestHash := by
  obtain ⟨hnumber, number, hstate, hkept⟩ := prepareCallEnv_eq_ok hprepare
  obtain ⟨_, -, hprecompiles⟩ := HlCallApi.callPrecompiles_eq_ok.1 hcall
  rw [toU64_number, Except.ok.injEq, hhead] at hstate
  rw [hkept, Option.map_some, Option.getD_some, ← hstate] at hprecompiles
  have hatHead : atHead = some (forwarder, info.bestHash) := by
    change (if info.bestNumber < info.bestNumber then _ else if info.bestNumber = info.bestNumber
      then _ else _) = _ at hprecompiles
    rw [if_neg (UInt64.lt_irrefl _), if_pos rfl] at hprecompiles
    obtain ⟨_, -, heq⟩ := Partial.except_bind_eq_ok.1 hprecompiles
    cases heq
    rfl
  rw [hatHead, unrecorded, hnumber]

end Key

/-! ## The forwarder at a growing head -/

/-- The forwarder, and the head of the chain. -/
structure HeadForwarder where
  head : ChainInfo
  forwarder : Forwarder

/-- The chain grows, or a call of the forwarder takes a step. -/
inductive HeadLabel
  | advance (head : ChainInfo)
  | call (label : ForwarderLabel)

/-- The calls are made at the head, for any number. -/
def HeadForwarder.AtHead (s : HeadForwarder) : ForwarderLabel → Prop
  | .invoke _ key => key.headHash = s.head.bestHash
  | _ => True

/-- The forwarder under any number of calls, while the chain grows. -/
def pressure : System HeadForwarder HeadLabel where
  init s := forwarder.init s.forwarder
  step s l s' := match l with
    | .advance head => s.head.bestNumber < head.bestNumber ∧ s' = { s with head := head }
    | .call label => s.AtHead label ∧ s'.head = s.head ∧
        forwarder.step s.forwarder label s'.forwarder

/-- No number is greater than that of the head it is called at. -/
def NoneAbove (s : HeadForwarder) : HeadLabel → Prop
  | .call (.invoke _ key) => key.blockNumber ≤ s.head.bestNumber
  | _ => True

/-- A key is for a block below the head, or for the head. -/
def UpTo (head : ChainInfo) (key : CacheKey) : Prop :=
  key.blockNumber ≤ head.bestNumber ∧
    (key.blockNumber = head.bestNumber → key.headHash = head.bestHash)

theorem UpTo.advance {head head' : ChainInfo} {key : CacheKey} (h : UpTo head key)
    (hlt : head.bestNumber < head'.bestNumber) : UpTo head' key := by
  have hbelow : key.blockNumber < head'.bestNumber := UInt64.lt_of_le_of_lt h.1 hlt
  exact ⟨UInt64.le_of_lt hbelow, fun heq => absurd heq (UInt64.ne_of_lt hbelow)⟩

/-- The calls and the responses are for blocks up to the head, and the newest number is the
    greatest one of the responses or greater, but not above the head. -/
structure Bounded (s : HeadForwarder) : Prop where
  calls : ∀ id key phase, s.forwarder.calls id = some ⟨key, phase⟩ → UpTo s.head key
  responses : ∀ key response, s.forwarder.cache.responses[key]? = some response →
    UpTo s.head key ∧ key.blockNumber ≤ s.forwarder.cache.newestBlockNumber
  newest : s.forwarder.cache.newestBlockNumber ≤ s.head.bestNumber

/-- The bound holds at the start. -/
theorem bounded_init {s : HeadForwarder} (h : pressure.init s) : Bounded s := by
  obtain ⟨head, forwarder⟩ := s
  obtain rfl : forwarder = .new := h
  refine ⟨fun id key phase hcall => ?_, fun key response hresponse => ?_, UInt64.zero_le⟩
  · cases hcall
  · rw [show Forwarder.new.cache.responses = ∅ from rfl, Std.HashMap.getElem?_empty] at hresponse
    cases hresponse

theorem le_max_number (a b : UInt64) : a ≤ max a b ∧ b ≤ max a b := by
  rw [show max a b = if a ≤ b then b else a from rfl]
  split_ifs with h
  · exact ⟨h, UInt64.le_refl b⟩
  · exact ⟨UInt64.le_refl a, UInt64.le_of_lt (UInt64.not_le.1 h)⟩

theorem max_number_le {a b c : UInt64} (ha : a ≤ c) (hb : b ≤ c) : max a b ≤ c := by
  rw [show max a b = if a ≤ b then b else a from rfl]
  split_ifs
  · exact hb
  · exact ha

/-- Publishing a response keeps the cache within the head. -/
theorem Bounded.publish {s : HeadForwarder} (h : Bounded s) {key : CacheKey}
    (hkey : UpTo s.head key) (result : Except ForwardError Response) :
    let cache := s.forwarder.cache.publish key result
    (∀ key' response, cache.responses[key']? = some response →
      UpTo s.head key' ∧ key'.blockNumber ≤ cache.newestBlockNumber) ∧
      cache.newestBlockNumber ≤ s.head.bestNumber := by
  cases result with
  | error error => exact ⟨h.responses, h.newest⟩
  | ok response =>
    obtain ⟨hnewest, hnumber⟩ := le_max_number s.forwarder.cache.newestBlockNumber key.blockNumber
    refine ⟨fun key' response' hresponse => ?_, max_number_le h.newest hkey.1⟩
    by_cases heq : key' = key
    · subst heq
      exact ⟨hkey, hnumber⟩
    · obtain ⟨hupTo, hle⟩ := h.responses key' response'
        (Cache.stores_publish.lost key' response' heq hresponse)
      exact ⟨hupTo, UInt64.le_trans hle hnewest⟩

/-- Every step keeps the bound. -/
theorem Bounded.step {s s' : HeadForwarder} {l : HeadLabel} (h : Bounded s)
    (hstep : (pressure.guarded NoneAbove).step s l s') : Bounded s' := by
  obtain ⟨hguard, hstep⟩ := hstep
  cases l with
  | advance head =>
    obtain ⟨hlt, rfl⟩ := hstep
    refine ⟨fun id key phase hcall => (h.calls id key phase hcall).advance hlt,
      fun key response hresponse => ?_, ?_⟩
    · obtain ⟨hupTo, hnewest⟩ := h.responses key response hresponse
      exact ⟨hupTo.advance hlt, hnewest⟩
    · exact UInt64.le_trans h.newest (UInt64.le_of_lt hlt)
  | call label =>
    obtain ⟨hatHead, hhead, hstep⟩ := hstep
    have hcalls : ∀ id key phase, s'.forwarder.calls id = some ⟨key, phase⟩ → UpTo s'.head key := by
      intro id key phase hcall
      rw [hhead]
      obtain ⟨hl, -⟩ | ⟨before, hbefore, -⟩ :=
        call_before_step (refines_singleFlight.step _ _ _ hstep) hcall
      · -- The call is new, and made at the head.
        obtain rfl : label = .invoke id key := by
          cases label with
          | invoke =>
            cases hl
            rfl
          | lookup | request | publish | complete | wake => cases hl
        exact ⟨hguard, fun _ => hatHead⟩
      · exact h.calls id key before hbefore
    rcases Forwarder.responses_of_step hstep with
      ⟨hsame, hnewest⟩ | ⟨id, key, result, -, hcall, hcache⟩
    · refine ⟨hcalls, ?_, ?_⟩
      · rw [hsame, hnewest, hhead]
        exact h.responses
      · rw [hnewest, hhead]
        exact h.newest
    · obtain ⟨hresponses, hnewest⟩ := h.publish (h.calls id key _ hcall) result
      refine ⟨hcalls, ?_, ?_⟩
      · rw [hcache, hhead]
        exact hresponses
      · rw [hcache, hhead]
        exact hnewest

/-- The bound holds of all states that are reached with the guard. -/
theorem bounded_of_reachable {s : HeadForwarder} (h : Reachable (pressure.guarded NoneAbove) s) :
    Bounded s :=
  h.invariant (fun _ => bounded_init) fun _ _ _ => Bounded.step

/-! ## Evicting responses of the head -/

/-- A key is for the head, or for a block on top of it. -/
def OnHead (head : ChainInfo) (key : CacheKey) : Prop :=
  head.bestNumber ≤ key.blockNumber ∧ key.headHash = head.bestHash

/-- The cache has at least `n` responses for the head and the blocks on top of it. -/
def HasOnHead (s : HeadForwarder) (n : ℕ) : Prop :=
  ∃ keys : Finset CacheKey, n ≤ keys.card ∧
    ∀ key ∈ keys, key ∈ s.forwarder.cache.responses ∧ OnHead s.head key

/-- The keys of the responses that a filter keeps. -/
theorem Cache.exists_keys_filter (responses : Std.HashMap CacheKey Response)
    (p : CacheKey → Bool) :
    ∃ keys : Finset CacheKey, keys.card = (responses.filter fun key _ => p key).size ∧
      ∀ key ∈ keys, ∃ response, responses[key]? = some response ∧ p key = true := by
  refine ⟨(responses.filter fun key _ => p key).keys.toFinset, ?_, fun key hkey => ?_⟩
  · rw [List.toFinset_card_of_nodup Std.HashMap.nodup_keys, Std.HashMap.length_keys]
  · rw [List.mem_toFinset, Std.HashMap.mem_keys, ← Std.HashMap.isSome_getElem?_iff_mem,
      Std.HashMap.getElem?_filter'] at hkey
    obtain ⟨response, hresponse⟩ := Option.isSome_iff_exists.1 hkey
    exact ⟨response, Option.filter_eq_some_iff.1 hresponse⟩

/-- A response that a step evicts is evicted as another one is published. -/
theorem evicted_of_step {s s' : HeadForwarder} {l : HeadLabel} (hstep : pressure.step s l s')
    {key : CacheKey} (hmem : key ∈ s.forwarder.cache.responses)
    (hnot : key ∉ s'.forwarder.cache.responses) :
    ∃ id key' phase, s.forwarder.calls id = some ⟨key', phase⟩ ∧
      (Cache.evict s.forwarder.cache.responses
        (max s.forwarder.cache.newestBlockNumber key'.blockNumber))[key]? = none := by
  cases l with
  | advance head =>
    obtain ⟨-, rfl⟩ := hstep
    exact absurd hmem hnot
  | call label =>
    obtain ⟨-, -, hstep⟩ := hstep
    -- Only a publication changes the cache.
    rcases Forwarder.responses_of_step hstep with ⟨hsame, -⟩ | ⟨id, key', result, -, hcall, hcache⟩
    · rw [hsame] at hnot
      exact absurd hmem hnot
    · refine ⟨id, key', _, hcall, ?_⟩
      rw [hcache] at hnot
      cases result with
      | error error => exact absurd hmem hnot
      | ok response =>
        change key ∉ (Cache.evict s.forwarder.cache.responses _).insert key' response at hnot
        rw [Std.HashMap.mem_insert, not_or] at hnot
        exact Std.HashMap.getElem?_eq_none hnot.2

/-- If no number is greater than that of the head it is called at, then the newest one is not, and
    a response of the head is evicted only if the cache is full of them. -/
theorem best_kept (s : HeadForwarder) (h : Reachable (pressure.guarded NoneAbove) s) :
    s.forwarder.cache.newestBlockNumber ≤ s.head.bestNumber ∧
      ∀ l s' key, pressure.step s l s' → key.blockNumber = s.head.bestNumber →
        key.headHash = s.head.bestHash → key ∈ s.forwarder.cache.responses →
        key ∉ s'.forwarder.cache.responses → HasOnHead s maxCacheEntries := by
  have hbounded := bounded_of_reachable h
  refine ⟨hbounded.newest, fun l s' key hstep hnumber hhash hmem hnot => ?_⟩
  obtain ⟨id, key', phase, hcall, hevicted⟩ := evicted_of_step hstep hmem hnot
  obtain ⟨response, hresponse⟩ := Option.isSome_iff_exists.1
    (Std.HashMap.isSome_getElem?_iff_mem.2 hmem)
  -- The newest number is that of the head, whose responses are not old.
  have hnewest : max s.forwarder.cache.newestBlockNumber key'.blockNumber = s.head.bestNumber := by
    have hle := (hbounded.responses key response hresponse).2
    rw [hnumber] at hle
    exact UInt64.le_antisymm (max_number_le hbounded.newest (hbounded.calls id key' phase hcall).1)
      (UInt64.le_trans hle (le_max_number _ _).1)
  rw [hnewest] at hevicted
  obtain ⟨-, hold | hmany⟩ := (Cache.getElem?_evict_eq_none_iff hresponse).1 hevicted
  · exact absurd hnumber (UInt64.ne_of_lt hold)
  · obtain ⟨keys, hcard, hkeys⟩ := Cache.exists_keys_filter s.forwarder.cache.responses
      fun key => decide (s.head.bestNumber ≤ key.blockNumber)
    refine ⟨keys, hcard ▸ hmany, fun key₁ hkey₁ => ?_⟩
    obtain ⟨response₁, hresponse₁, hle⟩ := hkeys key₁ hkey₁
    obtain ⟨hupTo, -⟩ := hbounded.responses key₁ response₁ hresponse₁
    have hle := of_decide_eq_true hle
    refine ⟨?_, hle, hupTo.2 (UInt64.le_antisymm hupTo.1 hle)⟩
    rw [← Std.HashMap.isSome_getElem?_iff_mem, hresponse₁]
    rfl

/-! ### A full cache -/

variable {s s' : Forwarder} {head : ChainInfo}

/-- A run of the forwarder, while the chain does not grow. -/
theorem run_at {T : System HeadForwarder HeadLabel} {ls : List ForwarderLabel}
    (head : ChainInfo) (h : Run forwarder s ls s')
    (hstep : ∀ l ∈ ls, ∀ t t', forwarder.step t l t' →
      T.step ⟨head, t⟩ (.call l) ⟨head, t'⟩) :
    Run T ⟨head, s⟩ (ls.map .call) ⟨head, s'⟩ := by
  induction h with
  | nil => exact .nil
  | @snoc ls t l t' _ hlast ih =>
    rw [List.map_append]
    refine (ih fun l hl => hstep l (List.mem_append_left _ hl)).snoc ?_
    exact hstep l (List.mem_append_right _ List.mem_cons_self) t t' hlast

/-- The steps of one call are made at the head, if it is. -/
theorem pressure_step {l : ForwarderLabel} {key : CacheKey} (hkey : key.headHash = head.bestHash)
    (hl : ∀ id' key', l = .invoke id' key' → key' = key) (hstep : forwarder.step s l s') :
    pressure.step ⟨head, s⟩ (.call l) ⟨head, s'⟩ := by
  refine ⟨?_, rfl, hstep⟩
  cases l with
  | invoke id' key' => exact hl id' key' rfl ▸ hkey
  | lookup | request | publish | complete | wake => trivial

/-- The first steps of a call that is alone are made for its key. -/
theorem eq_of_mem_led {l : ForwarderLabel} {ls : List ForwarderLabel} {id id' : ℕ}
    {key key' : CacheKey} {upstream : Upstream}
    (hls : ls <+: [.invoke id key, .lookup id, .request id key.address key.input upstream,
      .publish id, .complete id]) (hl : l ∈ ls) (heq : l = .invoke id' key') : key' = key := by
  subst heq
  have hmem := hls.subset hl
  simp only [List.mem_cons, ForwarderLabel.invoke.injEq, reduceCtorEq, List.not_mem_nil,
    or_false] at hmem
  exact hmem.2

/-- A head of the chain. -/
def firstHead : ChainInfo := ⟨0, 1⟩

/-- The cache is filled at a head. -/
theorem exists_filled_at {n : ℕ} (hn : n ≤ maxCacheEntries) :
    ∃ s, Filled n s ∧ Reachable (pressure.guarded NoneAbove) ⟨firstHead, s⟩ := by
  induction n with
  | zero => exact ⟨_, .zero, .init rfl⟩
  | succ n ih =>
    obtain ⟨s, hs, hreachable⟩ := ih (Nat.le_of_succ_le hn)
    refine ⟨_, hs.next hn, hreachable.run (run_at _ (Forwarder.run_led (hs.calls n le_rfl)
      hs.not_mem (hs.inFlight _) (some (.ok [0]))) fun l hl t t' hstep => ⟨?_, ?_⟩)⟩
    · cases l with
      | invoke id key =>
        rw [NoneAbove, eq_of_mem_led List.prefix_rfl hl rfl]
        exact UInt64.le_refl 1
      | lookup | request | publish | complete | wake => trivial
    · exact pressure_step rfl (fun _ _ => eq_of_mem_led List.prefix_rfl hl) hstep

theorem reachable_of_guarded {s : HeadForwarder} (h : Reachable (pressure.guarded NoneAbove) s) :
    Reachable pressure s :=
  h.invariant (fun _ hinit => .init hinit) fun _ _ _ hs hstep => hs.step hstep.2

/-- The cache is full of responses of the head, and its newest number is not above it. -/
theorem best_kept_filled : ∃ s : HeadForwarder,
    s.forwarder.cache.responses.size = maxCacheEntries ∧ s.head = firstHead ∧
      s.forwarder.cache.newestBlockNumber ≤ s.head.bestNumber := by
  obtain ⟨s, hs, hreachable⟩ := exists_filled_at le_rfl
  exact ⟨_, hs.size, rfl, (best_kept _ hreachable).1⟩

/-! ### One great number -/

/-- The head after it. -/
def secondHead : ChainInfo := ⟨1, 2⟩

/-- A call at the second head. -/
def bestKey : CacheKey := ⟨2, 1, 0x807, []⟩

/-- A call at the second head that overrides the number. -/
def overriddenKey : CacheKey := ⟨1000000, 1, 0x807, []⟩

/-- The forwarder after a call was answered, before it is published. -/
def Forwarder.asked (s : Forwarder) (id : ℕ) (key : CacheKey)
    (result : Except ForwardError Response) : Forwarder where
  cache := { s.cache with inFlight := s.cache.inFlight.insert key id }
  results := s.results
  calls := Function.update s.calls id (some ⟨key, .answered result⟩)

theorem Forwarder.calls_asked_self {id : ℕ} {key : CacheKey}
    {result : Except ForwardError Response} :
    (s.asked id key result).calls id = some ⟨key, .answered result⟩ :=
  Function.update_self ..

/-- A call without a response asks upstream. -/
theorem Forwarder.run_asked {id : ℕ} {key : CacheKey} (hcall : s.calls id = none)
    (hresponse : s.cache.responses[key]? = none) (hflight : s.cache.inFlight[key]? = none)
    (upstream : Upstream) :
    Run forwarder s [.invoke id key, .lookup id, .request id key.address key.input upstream]
      (s.asked id key (request key.address upstream)) := by
  have hself (calls : ℕ → Option (Call CacheKey Response ForwardError ℕ)) (phase) :
      Function.update calls id (some ⟨key, phase⟩) id = some ⟨key, phase⟩ :=
    Function.update_self ..
  refine .cons (step_invoke hcall key) <| .cons (step_lead (hself _ _) hresponse hflight) <|
    .cons (?_ : Forwarder.step _ _ = _) .nil
  rw [step_answer (hself _ _)]
  simp only [setCall, asked, Function.update_idem]

/-- Keys of other blocks are not in the cache. -/
theorem Filled.getElem?_of_ne {n : ℕ} (h : Filled n s) {key : CacheKey}
    (hkey : key.blockNumber ≠ 1) : s.cache.responses[key]? = none := by
  rw [Option.eq_none_iff_forall_ne_some]
  intro response hresponse
  obtain ⟨i, -, rfl⟩ := h.keys _ _ hresponse
  exact hkey rfl

/-- The cache has one response for the head, and is full of older ones. As a response for a great
    number is published, that of the head is evicted. -/
theorem best_evicted : ∃ s l s', Reachable pressure s ∧ pressure.step s l s' ∧
    bestKey.blockNumber = s.head.bestNumber ∧ bestKey.headHash = s.head.bestHash ∧
    bestKey ∈ s.forwarder.cache.responses ∧ bestKey ∉ s'.forwarder.cache.responses ∧
    ¬HasOnHead s 2 := by
  obtain ⟨s, hs, hreachable⟩ := exists_filled_at (n := 16383) (by decide)
  -- The chain grows, and a call is made at the new head.
  have hbest : s.cache.responses[bestKey]? = none := hs.getElem?_of_ne (by decide)
  have hrun := Forwarder.run_led (hs.calls 16383 le_rfl) hbest (hs.inFlight _) (some (.ok [0]))
  have hadvance : pressure.step ⟨firstHead, s⟩ (.advance secondHead) ⟨secondHead, s⟩ :=
    ⟨(by decide : firstHead.bestNumber < secondHead.bestNumber), rfl⟩
  set s₁ := s.led 16383 bestKey (.ok (.output [0]))
  have hreachable₁ : Reachable pressure ⟨secondHead, s₁⟩ :=
    ((reachable_of_guarded hreachable).step hadvance).run (run_at _ hrun fun l hl t t' hstep =>
      pressure_step rfl (fun _ _ => eq_of_mem_led List.prefix_rfl hl) hstep)
  have hresponses : s₁.cache.responses = s.cache.responses.insert bestKey (.output [0]) := by
    change (Cache.evict s.cache.responses _).insert _ _ = _
    rw [Cache.evict_of_lt (hs.size.trans_lt (by decide))]
  have hfull : maxCacheEntries ≤ s₁.cache.responses.size := by
    have hmem : bestKey ∉ s.cache.responses := by
      rw [← Std.HashMap.isSome_getElem?_iff_mem, hbest]
      exact Bool.false_ne_true
    rw [hresponses, Std.HashMap.size_insert, if_neg hmem, hs.size]
    decide
  -- A call at the new head overrides the number.
  have hcall : s₁.calls 16384 = none := by
    rw [Forwarder.calls_led_of_ne (by decide)]
    exact hs.calls 16384 (by decide)
  have hoverridden : s₁.cache.responses[overriddenKey]? = none := by
    rw [hresponses, Std.HashMap.getElem?_insert, if_neg (by decide)]
    exact hs.getElem?_of_ne (by decide)
  have hrun₂ := Forwarder.run_asked hcall hoverridden
    (Forwarder.inFlight_led hs.inFlight _ _ _ _) (some (.ok [0]))
  set s₂ := s₁.asked 16384 overriddenKey (.ok (.output [0]))
  have hreachable₂ : Reachable pressure ⟨secondHead, s₂⟩ :=
    hreachable₁.run (run_at _ hrun₂ fun l hl t t' hstep => pressure_step rfl
      (fun _ _ => eq_of_mem_led ⟨[.publish 16384, .complete 16384], rfl⟩ hl) hstep)
  -- As its response is published, that of the first call is evicted.
  set s₃ : Forwarder :=
    { s₂.setCall 16384 overriddenKey (.published (.ok (.output [0]))) with
      cache := s₂.cache.publish overriddenKey (.ok (.output [0])) }
  have hpublish : pressure.step ⟨secondHead, s₂⟩ (.call (.publish 16384)) ⟨secondHead, s₃⟩ :=
    ⟨trivial, rfl, Forwarder.step_publish Forwarder.calls_asked_self⟩
  refine ⟨⟨secondHead, s₂⟩, _, ⟨secondHead, s₃⟩, hreachable₂, hpublish, rfl, rfl, ?_, ?_, ?_⟩
  · change bestKey ∈ s₁.cache.responses
    rw [hresponses]
    exact Std.HashMap.mem_insert_self
  · change bestKey ∉ (Cache.evict s₁.cache.responses
      (max s₁.cache.newestBlockNumber 1000000)).insert overriddenKey _
    have hnewest : bestKey.blockNumber < max s₁.cache.newestBlockNumber 1000000 :=
      UInt64.lt_of_lt_of_le (by decide) (le_max_number _ _).2
    rw [Std.HashMap.mem_insert, not_or, ← Std.HashMap.isSome_getElem?_iff_mem,
      Cache.getElem?_evict_of_full hfull hnewest]
    exact ⟨by decide, Bool.false_ne_true⟩
  · -- The only response for the new head is that of the first call.
    rintro ⟨keys, hcard, hkeys⟩
    have hkey : ∀ key ∈ keys, key = bestKey := by
      intro key hmem
      obtain ⟨hresponse, hle, -⟩ := hkeys key hmem
      change key ∈ s₁.cache.responses at hresponse
      rw [hresponses, Std.HashMap.mem_insert] at hresponse
      rcases hresponse with heq | hresponse
      · exact (eq_of_beq heq).symm
      · rw [← Std.HashMap.isSome_getElem?_iff_mem, Option.isSome_iff_exists] at hresponse
        obtain ⟨response, hresponse⟩ := hresponse
        obtain ⟨i, -, rfl⟩ := hs.keys _ _ hresponse
        exact absurd hle (by decide : ¬secondHead.bestNumber ≤ (1 : UInt64))
    have hone := Finset.card_le_one.2 fun key hmem key' hmem' =>
      (hkey key hmem).trans (hkey key' hmem').symm
    omega

end Nanoreth
