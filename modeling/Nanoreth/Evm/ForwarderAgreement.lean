import Nanoreth.Evm.ReadPrecompileForwarder

/-!
# Reads at one head

All calls for a key return the same response, as long as it stays in the cache: a call only
makes a request for a key without a cached response (`reads_agree`). But once the cache is
full, the responses for older blocks are evicted. A call at one of these blocks then
makes a new request, and the upstream may have moved on (`reads_disagree`).
-/

namespace Nanoreth

open Transition SingleFlight Overwrite

/-- A response was cached for a key, and evicted. -/
def Forwarder.Evicted (s : Forwarder) (key : CacheKey) : Prop :=
  s.cache.responses[key]? = none ∧ ∃ response id phase, s.calls id = some ⟨key, phase⟩ ∧
    phase.publication = some (.ok response)

/-- No call looks up a key whose response was evicted. -/
def NoneEvicted (s : Forwarder) : ForwarderLabel → Prop
  | .lookup id => ∀ key, s.calls id = some ⟨key, .start⟩ → ¬ s.Evicted key
  | _ => True

/-- If no call looks up a key whose response was evicted, any two calls for a key that
    succeed return the same response. -/
theorem reads_agree {s : Forwarder} (h : Reachable (forwarder.guarded NoneEvicted) s)
    (id id' : ℕ) {key : CacheKey} {source source' : Source ℕ} {response response' : Response}
    (hcall : s.calls id = some ⟨key, .returned source (.ok response)⟩)
    (hcall' : s.calls id' = some ⟨key, .returned source' (.ok response')⟩) :
    response = response' := by
  have hguard : ∀ s l, NoneEvicted s l →
      NoneLost (Forwarder.toSingleFlight s) (ForwarderLabel.toSingleFlight l) := by
    intro s l hl
    cases l with
    | lookup id => exact hl
    | invoke | request | publish | complete | wake => trivial
  exact agree_of_guarded ((refines_singleFlight.guarded hguard).reachable h) hcall hcall'

/-- The second call for a key finds the response of the first one. -/
theorem reads_agree_cached : ∃ s response source response',
    Reachable (forwarder.guarded NoneEvicted) s ∧
    s.calls 0 = some ⟨priceKey, .returned .led (.ok response)⟩ ∧
    s.calls 1 = some ⟨priceKey, .returned source (.ok response')⟩ ∧ response = response' := by
  -- Nothing was published at the first lookup, and the response is cached at the second one.
  have hlead : NoneEvicted (Forwarder.new.setCall 0 priceKey .start) (.lookup 0) := by
    rintro key - ⟨-, response, id, phase, hid, hphase⟩
    cases id with
    | zero =>
      cases hid
      cases hphase
    | succ id => cases hid
  have hcached (s : Forwarder) (cache : Cache) (response : Response)
      (hs : s.cache.responses = cache.responses.insert priceKey response) :
      NoneEvicted (s.setCall 1 priceKey .start) (.lookup 1) := by
    rintro key hkey ⟨hnone, -⟩
    cases hkey
    rw [show (s.setCall 1 priceKey .start).cache.responses = s.cache.responses from rfl, hs,
      Std.HashMap.getElem?_insert_self] at hnone
    cases hnone
  have hrun : Run (forwarder.guarded NoneEvicted) .new [.invoke 0 priceKey, .lookup 0,
      .request 0 priceKey.address priceKey.input (some (.ok [42])), .publish 0, .complete 0,
      .invoke 1 priceKey, .lookup 1] _ :=
    .cons ⟨trivial, Forwarder.step_invoke rfl priceKey⟩ <|
      .cons ⟨hlead, Forwarder.step_lead rfl Std.HashMap.getElem?_empty
        Std.HashMap.getElem?_empty⟩ <|
      .cons ⟨trivial, Forwarder.step_answer rfl _⟩ <|
      .cons ⟨trivial, Forwarder.step_publish rfl⟩ <| .cons ⟨trivial, Forwarder.step_complete rfl⟩ <|
      .cons ⟨trivial, Forwarder.step_invoke rfl priceKey⟩ <|
      .cons ⟨hcached _ ⟨0, _, ∅⟩ _ rfl,
        Forwarder.step_hit rfl Std.HashMap.getElem?_insert_self⟩ .nil
  have hreachable : Reachable (forwarder.guarded NoneEvicted) _ := ⟨_, _, rfl, hrun⟩
  exact ⟨_, _, _, _, hreachable, rfl, rfl, reads_agree hreachable 0 1 rfl rfl⟩

/-! ## Eviction -/

/-- The forwarder after a call led a request. -/
def Forwarder.led (s : Forwarder) (id : ℕ) (key : CacheKey)
    (result : Except ForwardError Response) : Forwarder where
  cache := Cache.publish { s.cache with inFlight := s.cache.inFlight.insert key id } key result
  results := Function.update s.results id (some result)
  calls := Function.update s.calls id (some ⟨key, .returned .led result⟩)

variable {s : Forwarder} {id id' n : ℕ} {key : CacheKey} {result : Except ForwardError Response}

theorem Forwarder.calls_led_self :
    (s.led id key result).calls id = some ⟨key, .returned .led result⟩ :=
  Function.update_self ..

theorem Forwarder.calls_led_of_ne (h : id' ≠ id) : (s.led id key result).calls id' = s.calls id' :=
  Function.update_of_ne h ..

/-- A call that is alone leads its request. -/
theorem Forwarder.run_led (hcall : s.calls id = none) (hresponse : s.cache.responses[key]? = none)
    (hflight : s.cache.inFlight[key]? = none) (upstream : Upstream) :
    Run forwarder s [.invoke id key, .lookup id, .request id key.address key.input upstream,
      .publish id, .complete id] (s.led id key (request key.address upstream)) := by
  have hself (calls : ℕ → Option (Call CacheKey Response ForwardError ℕ)) (phase) :
      Function.update calls id (some ⟨key, phase⟩) id = some ⟨key, phase⟩ :=
    Function.update_self ..
  refine .cons (step_invoke hcall key) <| .cons (step_lead (hself _ _) hresponse hflight) <|
    .cons (step_answer (hself _ _) upstream) <| .cons (step_publish (hself _ _)) <|
    .cons (?_ : Forwarder.step _ _ = _) .nil
  -- The phase of the call is written five times.
  rw [step_complete (hself _ _)]
  simp only [setCall, led, Function.update_idem]

/-- The calls for different inputs at a block. -/
def inputKey (i : ℕ) : CacheKey := ⟨1, 0, 0x807, List.replicate i 0⟩

/-- The cache has the responses of `n` calls for different inputs, which have returned. -/
structure Filled (n : ℕ) (s : Forwarder) : Prop where
  reachable : Reachable forwarder s
  size : s.cache.responses.size = n
  keys : ∀ (key : CacheKey) response, s.cache.responses[key]? = some response →
    ∃ i < n, key = inputKey i
  inFlight : ∀ key : CacheKey, s.cache.inFlight[key]? = none
  calls : ∀ id, n ≤ id → s.calls id = none
  newest : s.cache.newestBlockNumber ≤ 1
  first : 0 < n → s.calls 0 = some ⟨inputKey 0, .returned .led (.ok (.output [0]))⟩

/-- After a call led a request, its key is not in flight any more. -/
theorem Forwarder.inFlight_led (h : ∀ key : CacheKey, s.cache.inFlight[key]? = none) (id : ℕ)
    (key : CacheKey) (result : Except ForwardError Response) (key' : CacheKey) :
    (s.led id key result).cache.inFlight[key']? = none := by
  refine (congrFun Cache.inFlight_publish key').trans ?_
  rw [getElem?_insert_eq, Function.update_idem]
  by_cases hkey : key' = key
  · rw [hkey, Function.update_self]
  · rw [Function.update_of_ne hkey, h]

namespace Filled

/-- A new cache is filled with nothing. -/
theorem zero : Filled 0 .new where
  reachable := .init rfl
  size := Std.HashMap.size_empty
  keys key response h := by
    rw [show Forwarder.new.cache.responses = ∅ from rfl, Std.HashMap.getElem?_empty] at h
    cases h
  inFlight _ := Std.HashMap.getElem?_empty
  calls _ _ := rfl
  newest := by decide
  first := nofun

/-- The next key is not in the cache. -/
theorem not_mem (h : Filled n s) : s.cache.responses[inputKey n]? = none := by
  rw [Option.eq_none_iff_forall_ne_some]
  intro response hresponse
  obtain ⟨i, hi, heq⟩ := h.keys _ _ hresponse
  have hlength := congrArg (fun key => key.input.length) heq
  simp only [inputKey, List.length_replicate] at hlength
  omega

/-- A leader fills the cache with the next key. -/
theorem next (h : Filled n s) (hn : n < maxCacheEntries) :
    Filled (n + 1) (s.led n (inputKey n) (.ok (.output [0]))) := by
  have hresponses : (s.led n (inputKey n) (.ok (.output [0]))).cache.responses =
      s.cache.responses.insert (inputKey n) (.output [0]) := by
    change (Cache.evict s.cache.responses _).insert _ _ = _
    rw [Cache.evict_of_lt (h.size.trans_lt hn)]
  -- The key is new: the input is longer than the ones before.
  constructor
  case reachable =>
    exact h.reachable.run (Forwarder.run_led (h.calls n le_rfl) h.not_mem (h.inFlight _)
      (some (.ok [0])))
  case size =>
    have hmem : inputKey n ∉ s.cache.responses := by
      rw [← Std.HashMap.isSome_getElem?_iff_mem, h.not_mem]
      exact Bool.false_ne_true
    rw [hresponses, Std.HashMap.size_insert, if_neg hmem, h.size]
  case keys =>
    intro key response hresponse
    rw [hresponses, Std.HashMap.getElem?_insert] at hresponse
    split_ifs at hresponse with hkey
    · exact ⟨n, Nat.lt_succ_self n, (eq_of_beq hkey).symm⟩
    · obtain ⟨i, hi, heq⟩ := h.keys _ _ hresponse
      exact ⟨i, Nat.lt_succ_of_lt hi, heq⟩
  case inFlight => exact Forwarder.inFlight_led h.inFlight _ _ _
  case calls =>
    intro id hid
    rw [Forwarder.calls_led_of_ne (by omega)]
    exact h.calls id (by omega)
  case newest =>
    change max s.cache.newestBlockNumber 1 ≤ 1
    rw [show max s.cache.newestBlockNumber 1 = 1 from if_pos h.newest]
    exact UInt64.le_refl 1
  case first =>
    intro _
    by_cases h0 : n = 0
    · subst h0
      exact Forwarder.calls_led_self
    · rw [Forwarder.calls_led_of_ne (Ne.symm h0)]
      exact h.first (by omega)

end Filled

/-- The cache can be filled up to its limit. -/
theorem exists_filled (hn : n ≤ maxCacheEntries) : ∃ s, Filled n s := by
  induction n with
  | zero => exact ⟨_, .zero⟩
  | succ n ih =>
    obtain ⟨s, hs⟩ := ih (Nat.le_of_succ_le hn)
    exact ⟨_, hs.next hn⟩

/-- A call for a later block. -/
def laterKey : CacheKey := ⟨2, 0, 0x807, []⟩

/-- A key of a later block is not in the cache. -/
theorem Filled.laterKey_not_mem (h : Filled n s) : s.cache.responses[laterKey]? = none := by
  rw [Option.eq_none_iff_forall_ne_some]
  intro response hresponse
  obtain ⟨i, -, heq⟩ := h.keys _ _ hresponse
  cases congrArg CacheKey.blockNumber heq

/-- Once the cache is full, a call for a later block evicts the responses. -/
theorem Filled.evicted (h : Filled maxCacheEntries s) (id : ℕ) (response : Response) :
    (s.led id laterKey (.ok response)).cache.responses[inputKey 0]? = none := by
  have hnewest : max s.cache.newestBlockNumber 2 = 2 :=
    if_pos (UInt64.le_trans h.newest (by decide))
  have hne : inputKey 0 ≠ laterKey := by decide
  change ((Cache.evict s.cache.responses (max s.cache.newestBlockNumber 2)).insert laterKey
    response)[inputKey 0]? = none
  rw [congrFun (getElem?_insert_eq _ laterKey response) (inputKey 0), Function.update_of_ne hne,
    hnewest]
  exact Cache.getElem?_evict_of_full h.size.ge (by decide)

/-- The cache is filled at a block. After a call for a later block, the first call is made
    again, and the upstream has moved on. -/
theorem reads_disagree : ∃ s key response response', Reachable forwarder s ∧
    s.calls 0 = some ⟨key, .returned .led (.ok response)⟩ ∧
    s.calls (maxCacheEntries + 1) = some ⟨key, .returned .led (.ok response')⟩ ∧
    response ≠ response' := by
  obtain ⟨s, hs⟩ := exists_filled le_rfl
  -- A call for a later block finds the cache full.
  set s₁ := s.led maxCacheEntries laterKey (.ok (.output [0]))
  have hreachable : Reachable forwarder s₁ := hs.reachable.run
    (Forwarder.run_led (hs.calls _ le_rfl) hs.laterKey_not_mem (hs.inFlight _) (some (.ok [0])))
  have hcall : s₁.calls (maxCacheEntries + 1) = none := by
    rw [Forwarder.calls_led_of_ne (Nat.succ_ne_self _)]
    exact hs.calls _ (Nat.le_succ _)
  -- The first call is made again, and leads a second request for its key.
  refine ⟨s₁.led (maxCacheEntries + 1) (inputKey 0) (.ok (.output [1])), inputKey 0, .output [0],
    .output [1], hreachable.run (Forwarder.run_led hcall (hs.evicted _ _)
      (Forwarder.inFlight_led hs.inFlight _ _ _ _) (some (.ok [1]))), ?_,
    Forwarder.calls_led_self, by decide⟩
  rw [Forwarder.calls_led_of_ne (Nat.succ_ne_zero _).symm, Forwarder.calls_led_of_ne (by decide)]
  exact hs.first (by decide)

end Nanoreth
