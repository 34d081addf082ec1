import Nanoreth.Lib.Overwrite
import Nanoreth.Lib.Transition
import Nanoreth.Types.RethCompat

/-!
# Threads that fetch spot metadata

Blocks are converted by many threads at once. Those that convert a system transaction to a token
contract look up its spot asset in a mapping that they share. A thread that misses takes the fetch
lock, looks again, and replaces the whole mapping by what the API answers; then it starts over. A
request that fails is made again, with the lock. A thread that panics with the lock, as no API is
known, poisons it (`system_tx_to_reth_transaction` in `types/reth_compat.rs`).

If the API answers and lists the contract, this ends at the second lookup, whatever the other
threads do. But if it does not list it, and neither the patch of testnet nor an override does, the
mapping is fetched again and again; and if it does not answer, it is asked for ever, and no other
thread gets the lock (`conversion_ends_iff`).
-/

namespace Nanoreth

open Partial Transition Overwrite

/-! ## The mapping that is fetched -/

namespace SpotEnv

/-- The contract is among the tokens of the API, those of the patch of testnet, or the
    overrides. -/
def Lists (env : SpotEnv) (chainId : UInt64) (tokens : List SpotToken) (target : Address) : Prop :=
  target ∈ tokens.filterMap (·.evmContract) ∨
    chainId = testnetChainId ∧ (patchTestnetSpotMeta (fun _ => none) target).isSome ∨
    target ∈ env.manualOverrides.map (·.1)

/-- The API gives the same answer to all requests, or fails all of them. -/
def Fixed (env : SpotEnv) : Prop :=
  ∀ url n, env.post url n = env.post url 0

/-- A contract is in the map if a token has it. -/
theorem isSome_tokensToMap (tokens : List SpotToken) (target : Address) :
    (tokensToMap tokens target).isSome ↔ target ∈ tokens.filterMap (·.evmContract) := by
  have hentries : tokensToMap tokens =
      (tokens.filterMap fun token => token.evmContract.map (·, token.index)).foldl
        (fun map (entry : Address × UInt64) =>
          Function.update map entry.1 (some (⟨entry.2⟩ : SpotId))) fun _ => none := by
    rw [List.foldl_filterMap, tokensToMap]
    congr 1
    funext map token
    cases token.evmContract <;> rfl
  rw [hentries, foldl_update_eq (fun _ index => (⟨index⟩ : SpotId)), Option.or_none,
    Option.isSome_map, isSome_lastEntry_iff, List.map_filterMap]
  simp

/-- The patch adds entries to the map. -/
theorem isSome_patchTestnetSpotMeta (map : SpotMap) (target : Address) :
    (patchTestnetSpotMeta map target).isSome ↔
      (map target).isSome ∨ (patchTestnetSpotMeta (fun _ => none) target).isSome := by
  simp only [patchTestnetSpotMeta, SpotMap.insert, Function.update_apply]
  split_ifs <;> simp

/-- A contract is in the map if it is listed. -/
theorem isSome_toSpotMap_iff (env : SpotEnv) (chainId : UInt64) (tokens : List SpotToken)
    (target : Address) :
    (env.toSpotMap chainId tokens target).isSome ↔ env.Lists chainId tokens target := by
  have hoverrides : env.toSpotMap chainId tokens target = _ :=
    foldl_update_eq (fun _ index => (⟨index⟩ : SpotId)) env.manualOverrides _ target
  rw [hoverrides, Option.isSome_or, Bool.or_eq_true, Option.isSome_map, isSome_lastEntry_iff,
    Lists, ← isSome_tokensToMap]
  split_ifs with htestnet
  · rw [isSome_patchTestnetSpotMeta, or_comm, or_assoc]
    simp only [htestnet, true_and]
  · rw [or_comm]
    simp only [htestnet, false_and, false_or]

end SpotEnv

/-! ## Threads -/

/-- A call of a contract, by a system transaction of a block. -/
structure LegacyCall where
  transaction : SystemTx
  blockNumber : UInt64
  tx : TxLegacy
  target : Address
  tx_eq : transaction.tx = .legacy tx
  target_eq : tx.target = .call target

/-- How far the conversion of a call is. -/
inductive SpotPhase
  /-- At the start of the loop. -/
  | reading
  /-- The mapping does not have the contract: the lock is to be taken. -/
  | locking
  /-- With the lock, the mapping is to be read again. -/
  | rechecking
  | fetching
  | writing (metadata : SpotMap)
  | done (s : U256)
  | panicked

namespace SpotPhase

/-- The thread has the fetch lock. -/
def Locked : SpotPhase → Prop
  | rechecking | fetching | writing _ => True
  | _ => False

/-- A thread takes no more steps. -/
def Finished : SpotPhase → Prop
  | done _ | panicked => True
  | _ => False

end SpotPhase

/-- Where the conversion starts. Only the spot asset of a contract is looked up. -/
def SenderSource.phase : SenderSource → SpotPhase
  | .upstream sender => .done (addressToS sender)
  | .testnetLog sender => .done (addressToS sender)
  | .hype => .done 1
  | .spot => .reading

/-- A call begins with a lookup, or is done. -/
theorem SenderSource.phase_cases (source : SenderSource) :
    source = .spot ∧ source.phase = .reading ∨ ∃ s, source.phase = .done s := by
  cases source with
  | spot => exact .inl ⟨rfl, rfl⟩
  | upstream | testnetLog | hype => exact .inr ⟨_, rfl⟩

/-- How the sender of the call is found. -/
def LegacyCall.source (call : LegacyCall) (chainId : UInt64) : SenderSource :=
  senderSource chainId call.blockNumber call.transaction call.tx call.target

/-- The state of the threads, with the iterations of the loop each of them has started. -/
structure SpotThreads (ι : Type) where
  cache : SpotCache
  fetchLock : Option ι
  poisoned : Bool
  phase : ι → SpotPhase
  iterations : ι → ℕ

section Threads

variable {ι : Type} [DecidableEq ι] (env : SpotEnv) (chainId : UInt64) (calls : ι → LegacyCall)

namespace SpotThreads

/-- A thread goes on to a phase. -/
def goto (s : SpotThreads ι) (i : ι) (phase : SpotPhase) : SpotThreads ι :=
  { s with phase := Function.update s.phase i phase }

/-- A thread starts an iteration of the loop. -/
def iterate (s : SpotThreads ι) (i : ι) : SpotThreads ι :=
  { s with iterations := Function.update s.iterations i (s.iterations i + 1) }

/-- The lock is released. -/
def release (s : SpotThreads ι) : SpotThreads ι :=
  { s with fetchLock := none }

/-- A request to the API. -/
def request (s : SpotThreads ι) : SpotThreads ι :=
  { s with cache := { s.cache with requests := s.cache.requests + 1 } }

/-- What a thread does next, unless it has finished, or waits for the lock. -/
def next (s : SpotThreads ι) (i : ι) : Option (SpotThreads ι) :=
  match s.phase i with
  | .reading =>
    match s.cache.spotEvmMap (calls i).target with
    | some spot => some ((s.iterate i).goto i (.done spot.toS))
    | none => some ((s.iterate i).goto i .locking)
  | .locking =>
    -- The lock is held across the recheck, the requests and the write.
    match s.fetchLock with
    | some _ => none
    | none =>
      -- A thread that panicked with the lock poisons it for all others.
      if s.poisoned then some (s.goto i .panicked)
      else some ({ s with fetchLock := some i }.goto i .rechecking)
  | .rechecking =>
    if (s.cache.spotEvmMap (calls i).target).isSome then some (s.release.goto i .reading)
    else some (s.goto i .fetching)
  | .fetching =>
    match resolveUrl env chainId with
    | .error _ => some ({ s.release with poisoned := true }.goto i .panicked)
    | .ok url =>
      match env.post url s.cache.requests with
      -- The loop asks until it gets an answer.
      | none => some s.request
      | some tokens => some (s.request.goto i (.writing (env.toSpotMap chainId tokens)))
  | .writing metadata =>
    some ({ s.release with cache := { s.cache with spotEvmMap := metadata } }.goto i .reading)
  | .done _ | .panicked => none

end SpotThreads

/-- The threads that convert calls, from any mapping. -/
def spotThreads : System (SpotThreads ι) ι where
  init s := s.fetchLock = none ∧ s.poisoned = false ∧
    ∀ i, s.phase i = ((calls i).source chainId).phase ∧ s.iterations i = 0
  step s i s' := s.next env chainId calls i = some s'

/-- The threads, when only a thread and the one that has the lock go on, from any state and as long
    as the thread has not finished. -/
def finishing (i : ι) : System (SpotThreads ι) ι where
  init := Reachable (spotThreads env chainId calls)
  step := ((spotThreads env chainId calls).guarded fun s j =>
    ¬ (s.phase i).Finished ∧ (j = i ∨ s.fetchLock = some j)).step

/-- The conversion of a call ends, after so many iterations at most, whatever the other threads
    do. -/
structure EndsWithin (i : ι) (bound : ℕ) : Prop where
  iterations_le : ∀ s, Reachable (spotThreads env chainId calls) s → s.iterations i ≤ bound
  finishes : (finishing env chainId calls i).Ends fun s => (s.phase i).Finished

/-- The spot asset of the call is not looked up, or no API is known, or every request is answered
    and the asset is in every mapping that is fetched. -/
def LegacyCall.Resolved (call : LegacyCall) : Prop :=
  call.source chainId = .spot → ∀ url, resolveUrl env chainId = .ok url → ∀ request,
    ∃ tokens, env.post url request = some tokens ∧ env.Lists chainId tokens call.target

/-! ## Steps -/

namespace SpotThreads

variable {env chainId calls} {s s' : SpotThreads ι} {i j : ι}

@[simp] theorem phase_goto_self (s : SpotThreads ι) (i : ι) (phase : SpotPhase) :
    (s.goto i phase).phase i = phase :=
  Function.update_self ..

theorem phase_goto_of_ne (s : SpotThreads ι) (h : i ≠ j) (phase : SpotPhase) :
    (s.goto j phase).phase i = s.phase i :=
  Function.update_of_ne h ..

@[simp] theorem iterations_iterate_self (s : SpotThreads ι) (i : ι) :
    (s.iterate i).iterations i = s.iterations i + 1 :=
  Function.update_self ..

theorem iterations_iterate_of_ne (s : SpotThreads ι) (h : i ≠ j) :
    (s.iterate j).iterations i = s.iterations i :=
  Function.update_of_ne h ..

variable (env chainId calls s i) in
/-- What a thread can do. -/
inductive Moves : SpotThreads ι → Prop
  | hit (spot : SpotId) (phase : s.phase i = .reading)
      (found : s.cache.spotEvmMap (calls i).target = some spot) :
      Moves ((s.iterate i).goto i (.done spot.toS))
  | miss (phase : s.phase i = .reading)
      (missing : s.cache.spotEvmMap (calls i).target = none) :
      Moves ((s.iterate i).goto i .locking)
  | poison (phase : s.phase i = .locking) (free : s.fetchLock = none) :
      Moves (s.goto i .panicked)
  | lock (phase : s.phase i = .locking) (free : s.fetchLock = none) :
      Moves ({ s with fetchLock := some i }.goto i .rechecking)
  | filled (phase : s.phase i = .rechecking)
      (found : (s.cache.spotEvmMap (calls i).target).isSome) :
      Moves (s.release.goto i .reading)
  | fetch (phase : s.phase i = .rechecking) : Moves (s.goto i .fetching)
  | fail (phase : s.phase i = .fetching) :
      Moves ({ s.release with poisoned := true }.goto i .panicked)
  | retry (url : String) (phase : s.phase i = .fetching)
      (known : resolveUrl env chainId = .ok url)
      (failed : env.post url s.cache.requests = none) : Moves s.request
  | answer (url : String) (tokens : List SpotToken) (phase : s.phase i = .fetching)
      (known : resolveUrl env chainId = .ok url)
      (answer : env.post url s.cache.requests = some tokens) :
      Moves (s.request.goto i (.writing (env.toSpotMap chainId tokens)))
  | write (metadata : SpotMap) (phase : s.phase i = .writing metadata) :
      Moves ({ s.release with cache := { s.cache with spotEvmMap := metadata } }.goto i .reading)

/-- The other threads are left alone. -/
theorem Moves.frame (h : Moves env chainId calls s j s') (hij : i ≠ j) :
    s'.phase i = s.phase i ∧ s'.iterations i = s.iterations i := by
  cases h with
  | hit | miss => exact ⟨phase_goto_of_ne _ hij _, iterations_iterate_of_ne _ hij⟩
  | poison | lock | filled | fetch | fail | answer | write =>
    exact ⟨phase_goto_of_ne _ hij _, rfl⟩
  | retry => exact ⟨rfl, rfl⟩

/-- Every step is one of the moves. -/
theorem moves_of_step (h : (spotThreads env chainId calls).step s i s') :
    Moves env chainId calls s i s' := by
  change s.next env chainId calls i = some s' at h
  rw [next] at h
  -- By cases on the phase, in the order of the loop.
  cases hphase : s.phase i with
  | reading =>
    cases hmap : s.cache.spotEvmMap (calls i).target with
    | some spot =>
      simp only [hphase, hmap, Option.some.injEq] at h
      exact h ▸ .hit spot hphase hmap
    | none =>
      simp only [hphase, hmap, Option.some.injEq] at h
      exact h ▸ .miss hphase hmap
  | locking =>
    simp only [hphase] at h
    split at h
    · cases h
    · next hfree =>
      split at h
      · cases h
        exact .poison hphase hfree
      · cases h
        exact .lock hphase hfree
  | rechecking =>
    simp only [hphase] at h
    split at h
    · next hfound =>
      cases h
      exact .filled hphase hfound
    · cases h
      exact .fetch hphase
  | fetching =>
    cases hurl : resolveUrl env chainId with
    | error message =>
      simp only [hphase, hurl, Option.some.injEq] at h
      exact h ▸ .fail hphase
    | ok url =>
      cases hpost : env.post url s.cache.requests with
      | none =>
        simp only [hphase, hurl, hpost, Option.some.injEq] at h
        exact h ▸ .retry url hphase hurl hpost
      | some tokens =>
        simp only [hphase, hurl, hpost, Option.some.injEq] at h
        exact h ▸ .answer url tokens hphase hurl hpost
  | writing metadata =>
    simp only [hphase, Option.some.injEq] at h
    exact h ▸ .write metadata hphase
  | done | panicked => simp only [hphase, reduceCtorEq] at h

/-- The phases of the threads tell which one has the lock. -/
def LockHeld (fetchLock : Option ι) (phase : ι → SpotPhase) : Prop :=
  ∀ i, fetchLock = some i ↔ (phase i).Locked

namespace LockHeld

variable {fetchLock : Option ι} {phase : ι → SpotPhase} {next : SpotPhase}

/-- The lock stays where it is while nobody takes or leaves it. -/
theorem keep (h : LockHeld fetchLock phase) (hnext : (phase j).Locked ↔ next.Locked) :
    LockHeld fetchLock (Function.update phase j next) := by
  intro i
  rw [h i]
  by_cases hij : i = j
  · rw [hij, Function.update_self, hnext]
  · rw [Function.update_of_ne hij]

/-- A free lock may be taken. -/
theorem acquire (h : LockHeld none phase) (hnext : next.Locked) :
    LockHeld (some j) (Function.update phase j next) := by
  intro i
  by_cases hij : i = j
  · rw [hij, Function.update_self]
    exact iff_of_true rfl hnext
  · rw [Function.update_of_ne hij, ← h i]
    exact iff_of_false (fun heq => hij (Option.some.inj heq).symm) nofun

/-- Who holds the lock may leave it. -/
theorem release (h : LockHeld fetchLock phase) (hphase : (phase j).Locked)
    (hnext : ¬next.Locked) : LockHeld none (Function.update phase j next) := by
  intro i
  by_cases hij : i = j
  · rw [hij, Function.update_self]
    exact iff_of_false nofun hnext
  · rw [Function.update_of_ne hij, ← h i, (h j).2 hphase]
    exact iff_of_false nofun fun heq => hij (Option.some.inj heq).symm

end LockHeld

variable (env chainId) in
/-- The API has answered a request with the tokens of the mapping. -/
def Fetched (metadata : SpotMap) : Prop :=
  ∃ url request tokens, resolveUrl env chainId = .ok url ∧ env.post url request = some tokens ∧
    metadata = env.toSpotMap chainId tokens

variable (env chainId s) in
/-- What holds of all states: one thread at a time has the lock, and what is written was
    fetched. -/
structure Inv : Prop where
  lockHeld : LockHeld s.fetchLock s.phase
  fetched : ∀ i metadata, s.phase i = .writing metadata → Fetched env chainId metadata

/-- Every move keeps the invariant. -/
theorem Inv.of_moves (hinv : Inv env chainId s) (h : Moves env chainId calls s j s') :
    Inv env chainId s' := by
  -- Only the thread that moves changes its phase, and it writes what it has just fetched.
  have hfetched : ∀ phase : SpotPhase,
      (∀ metadata, phase = .writing metadata → Fetched env chainId metadata) →
      ∀ i metadata, Function.update s.phase j phase i = .writing metadata →
        Fetched env chainId metadata := by
    intro phase hphase i metadata hi
    by_cases hij : i = j
    · rw [hij, Function.update_self] at hi
      exact hphase metadata hi
    · rw [Function.update_of_ne hij] at hi
      exact hinv.fetched i metadata hi
  cases h with
  | hit spot hphase found =>
    exact ⟨hinv.lockHeld.keep (by rw [hphase]; rfl), hfetched _ nofun⟩
  | miss hphase missing =>
    exact ⟨hinv.lockHeld.keep (by rw [hphase]; rfl), hfetched _ nofun⟩
  | poison hphase free =>
    exact ⟨hinv.lockHeld.keep (by rw [hphase]; rfl), hfetched _ nofun⟩
  | lock hphase free =>
    have hheld := hinv.lockHeld
    rw [free] at hheld
    exact ⟨hheld.acquire trivial, hfetched _ nofun⟩
  | filled hphase found =>
    exact ⟨hinv.lockHeld.release (by rw [hphase]; trivial) id, hfetched _ nofun⟩
  | fetch hphase =>
    exact ⟨hinv.lockHeld.keep (by rw [hphase]; rfl), hfetched _ nofun⟩
  | fail hphase =>
    exact ⟨hinv.lockHeld.release (by rw [hphase]; trivial) id, hfetched _ nofun⟩
  | retry url hphase known failed => exact ⟨hinv.lockHeld, hinv.fetched⟩
  | answer url tokens hphase known answer =>
    refine ⟨hinv.lockHeld.keep (by rw [hphase]; rfl), hfetched _ fun metadata heq => ?_⟩
    cases heq
    exact ⟨url, _, tokens, known, answer, rfl⟩
  | write metadata hphase =>
    exact ⟨hinv.lockHeld.release (by rw [hphase]; trivial) id, hfetched _ nofun⟩

/-- The invariant holds of all states that can be reached. -/
theorem inv_of_reachable (h : Reachable (spotThreads env chainId calls) s) :
    Inv env chainId s := by
  refine h.invariant (fun s hinit => ?_) fun _ _ _ hinv hstep =>
    hinv.of_moves (moves_of_step hstep)
  obtain ⟨hlock, -, hstart⟩ := hinit
  constructor
  case lockHeld =>
    intro i
    rw [hlock, (hstart i).1]
    refine iff_of_false nofun ?_
    rcases ((calls i).source chainId).phase_cases with ⟨-, h⟩ | ⟨x, h⟩ <;> rw [h] <;> exact id
  case fetched =>
    intro i metadata hi
    rw [(hstart i).1] at hi
    rcases ((calls i).source chainId).phase_cases with ⟨-, h⟩ | ⟨x, h⟩ <;> cases h.symm.trans hi

end SpotThreads

/-! ## Calls that are resolved -/

/-- How many iterations a thread has started, given whether its contract is in the mapping. -/
def SpotPhase.Counts (found : Bool) (iterations : ℕ) : SpotPhase → Prop
  | reading => iterations = 0 ∨ iterations = 1 ∧ found = true
  | locking | rechecking | fetching | writing _ => iterations = 1
  | done _ | panicked => iterations ≤ 2

/-- There are at most two iterations. -/
theorem SpotPhase.Counts.le {found : Bool} {iterations : ℕ} {phase : SpotPhase}
    (h : phase.Counts found iterations) : iterations ≤ 2 := by
  cases phase with
  | reading =>
    rcases h with h | ⟨h, -⟩
    · omega
    · omega
  | locking | rechecking | fetching | writing => exact le_of_eq_of_le h (by decide)
  | done | panicked => exact h

/-- The count stays right when the map grows. -/
theorem SpotPhase.Counts.mono {found found' : Bool} {iterations : ℕ} {phase : SpotPhase}
    (h : phase.Counts found iterations) (hfound : ¬phase.Finished → found = true → found' = true) :
    phase.Counts found' iterations := by
  cases phase with
  | reading => exact h.imp_right fun ⟨hcount, hf⟩ => ⟨hcount, hfound id hf⟩
  | locking | rechecking | fetching | writing | done | panicked => exact h

namespace SpotThreads

variable {env chainId calls} {s s' : SpotThreads ι} {i j : ι}

variable (chainId calls s i) in
/-- The thread is in its first iteration, or will find its contract in the second one. -/
structure OnCourse : Prop where
  source : (s.phase i).Finished ∨ (calls i).source chainId = .spot
  counts : (s.phase i).Counts (s.cache.spotEvmMap (calls i).target).isSome (s.iterations i)

omit [DecidableEq ι] in
/-- Every mapping that is written has the contract of a call that is resolved. -/
theorem Inv.found (hinv : Inv env chainId s) (hresolved : (calls i).Resolved env chainId)
    (hsource : (calls i).source chainId = .spot) {metadata : SpotMap}
    (hphase : s.phase j = .writing metadata) : (metadata (calls i).target).isSome := by
  obtain ⟨url, request, tokens, hurl, hpost, rfl⟩ := hinv.fetched j metadata hphase
  obtain ⟨tokens', hpost', hlists⟩ := hresolved hsource url hurl request
  cases hpost.symm.trans hpost'
  exact (env.isSome_toSpotMap_iff chainId tokens _).2 hlists

/-- A thread stays on course in a phase that its count allows. -/
theorem onCourse_goto {phase : SpotPhase}
    (hsource : phase.Finished ∨ (calls i).source chainId = .spot)
    (hcounts : phase.Counts (s.cache.spotEvmMap (calls i).target).isSome (s.iterations i)) :
    OnCourse chainId calls (s.goto i phase) i := by
  refine ⟨?_, ?_⟩
  · rwa [phase_goto_self]
  · rwa [phase_goto_self]

/-- A thread stays on course by its own moves. -/
theorem OnCourse.of_moves (h : OnCourse chainId calls s i) (hinv : Inv env chainId s)
    (hresolved : (calls i).Resolved env chainId) (hmoves : Moves env chainId calls s i s') :
    OnCourse chainId calls s' i := by
  obtain ⟨hsource, hcounts⟩ := h
  cases hmoves with
  | hit spot hphase found =>
    rw [hphase] at hcounts
    refine onCourse_goto (.inl trivial) ?_
    change (s.iterate i).iterations i ≤ 2
    rw [iterations_iterate_self]
    rcases hcounts with hcount | ⟨hcount, -⟩ <;> omega
  | miss hphase missing =>
    rw [hphase] at hsource hcounts
    refine onCourse_goto (.inr (hsource.resolve_left id)) ?_
    -- A contract that is not there was not found before, so this is the first iteration.
    rw [missing] at hcounts
    change (s.iterate i).iterations i = 1
    rw [iterations_iterate_self, hcounts.resolve_right nofun]
  | poison hphase free => exact onCourse_goto (.inl trivial) hcounts.le
  | lock hphase free =>
    rw [hphase] at hsource hcounts
    exact onCourse_goto (.inr (hsource.resolve_left id)) hcounts
  | filled hphase found =>
    rw [hphase] at hsource hcounts
    exact onCourse_goto (.inr (hsource.resolve_left id)) (.inr ⟨hcounts, found⟩)
  | fetch hphase =>
    rw [hphase] at hsource hcounts
    exact onCourse_goto (.inr (hsource.resolve_left id)) hcounts
  | fail hphase => exact onCourse_goto (.inl trivial) hcounts.le
  | retry url hphase known failed => exact ⟨hsource, hcounts⟩
  | answer url tokens hphase known answer =>
    rw [hphase] at hsource hcounts
    exact onCourse_goto (.inr (hsource.resolve_left id)) hcounts
  | write metadata hphase =>
    rw [hphase] at hsource hcounts
    replace hsource := hsource.resolve_left id
    -- What was written has the contract, as its call is resolved.
    exact onCourse_goto (.inr hsource) (.inr ⟨hcounts, hinv.found hresolved hsource hphase⟩)

/-- A thread stays on course by the moves of others. -/
theorem OnCourse.of_moves_of_ne (h : OnCourse chainId calls s i) (hinv : Inv env chainId s)
    (hresolved : (calls i).Resolved env chainId) (hij : i ≠ j)
    (hmoves : Moves env chainId calls s j s') : OnCourse chainId calls s' i := by
  obtain ⟨hsource, hcounts⟩ := h
  obtain ⟨hphase, hiterations⟩ := hmoves.frame hij
  refine ⟨by rwa [hphase], ?_⟩
  rw [hphase, hiterations]
  cases hmoves with
  | hit | miss | poison | lock | filled | fetch | fail | retry | answer => exact hcounts
  | write metadata hwriting =>
    exact hcounts.mono fun hfinished _ =>
      hinv.found hresolved (hsource.resolve_left hfinished) hwriting

/-- A thread is on course in all states that can be reached. -/
theorem onCourse_of_reachable (hresolved : (calls i).Resolved env chainId)
    (h : Reachable (spotThreads env chainId calls) s) :
    Inv env chainId s ∧ OnCourse chainId calls s i := by
  refine h.invariant (P := fun s => Inv env chainId s ∧ OnCourse chainId calls s i)
    (fun s hinit => ⟨inv_of_reachable (.init hinit), ?_⟩) ?_
  · obtain ⟨-, -, hstart⟩ := hinit
    obtain ⟨hphase, hiterations⟩ := hstart i
    rcases ((calls i).source chainId).phase_cases with ⟨hsource, hstart⟩ | ⟨x, hstart⟩
    · refine ⟨.inr hsource, ?_⟩
      rw [hphase, hstart]
      exact .inl hiterations
    · rw [hstart] at hphase
      refine ⟨.inl ?_, ?_⟩
      · rw [hphase]
        trivial
      · rw [hphase]
        exact hiterations.le.trans (Nat.zero_le 2)
  · rintro s j s' ⟨hinv, hcourse⟩ hstep
    have hmoves := moves_of_step hstep
    refine ⟨hinv.of_moves hmoves, ?_⟩
    by_cases hij : i = j
    · subst hij
      exact hcourse.of_moves hinv hresolved hmoves
    · exact hcourse.of_moves_of_ne hinv hresolved hij hmoves

/-! ## The end of a conversion -/

/-- Who holds the lock can go on. -/
theorem exists_step_of_locked (env : SpotEnv) (chainId : UInt64) (calls : ι → LegacyCall)
    (h : (s.phase j).Locked) : ∃ s', (spotThreads env chainId calls).step s j s' := by
  change ∃ s', s.next env chainId calls j = some s'
  rw [next]
  cases hphase : s.phase j with
  | rechecking =>
    by_cases hfound : (s.cache.spotEvmMap (calls j).target).isSome
    · exact ⟨_, if_pos hfound⟩
    · exact ⟨_, if_neg hfound⟩
  | fetching =>
    cases hurl : resolveUrl env chainId with
    | error message => exact ⟨_, rfl⟩
    | ok url =>
      cases hpost : env.post url s.cache.requests with
      | none => exact ⟨s.request, by simp only [hpost]⟩
      | some tokens => exact ⟨s.request.goto j _, by simp only [hpost]; rfl⟩
  | writing metadata => exact ⟨_, rfl⟩
  | reading | locking | done | panicked =>
    rw [hphase] at h
    exact h.elim

/-- A thread that has not finished can go on, or waits for one that can. -/
theorem exists_step (hinv : Inv env chainId s) (h : ¬(s.phase i).Finished) :
    ∃ j s', (j = i ∨ s.fetchLock = some j) ∧ (spotThreads env chainId calls).step s j s' := by
  by_cases hlocked : (s.phase i).Locked
  · obtain ⟨s', hstep⟩ := exists_step_of_locked env chainId calls hlocked
    exact ⟨i, s', .inl rfl, hstep⟩
  · cases hphase : s.phase i with
    | reading =>
      have hstep : ∃ s', s.next env chainId calls i = some s' := by
        rw [next, hphase]
        cases hmap : s.cache.spotEvmMap (calls i).target <;> exact ⟨_, rfl⟩
      obtain ⟨s', hstep⟩ := hstep
      exact ⟨i, s', .inl rfl, hstep⟩
    | locking =>
      cases hlock : s.fetchLock with
      | some j =>
        -- If another thread holds the lock, it can go on instead.
        obtain ⟨s', hstep⟩ := exists_step_of_locked env chainId calls ((hinv.lockHeld j).1 hlock)
        exact ⟨j, s', .inr rfl, hstep⟩
      | none =>
        have hstep : ∃ s', s.next env chainId calls i = some s' := by
          rw [next, hphase, hlock]
          cases hpoisoned : s.poisoned <;> exact ⟨_, rfl⟩
        obtain ⟨s', hstep⟩ := hstep
        exact ⟨i, s', .inl rfl, hstep⟩
    | rechecking | fetching | writing =>
      rw [hphase] at hlocked
      exact absurd trivial hlocked
    | done | panicked =>
      rw [hphase] at h
      exact absurd trivial h

end SpotThreads

/-- The steps a thread has left, given how many iterations it has started. -/
def SpotPhase.left (iterations : ℕ) : SpotPhase → ℕ
  | reading => if iterations = 0 then 6 else 1
  | locking => 5
  | rechecking => 4
  | fetching => 3
  | writing _ => 2
  | done _ | panicked => 0

/-- The steps until a thread releases the lock. -/
def SpotPhase.untilRelease : SpotPhase → ℕ
  | rechecking => 3
  | fetching => 2
  | writing _ => 1
  | _ => 0

theorem SpotPhase.untilRelease_le (phase : SpotPhase) : phase.untilRelease ≤ 3 := by
  cases phase <;> simp [untilRelease]

namespace SpotThreads

variable {env chainId calls} {s s' : SpotThreads ι} {i j : ι}

/-- The steps until the lock is released by a thread. -/
def untilRelease (s : SpotThreads ι) : ℕ :=
  match s.fetchLock with
  | some j => (s.phase j).untilRelease
  | none => 0

variable (s i) in
/-- The measure that decreases as a thread finishes. -/
def left : ℕ := 4 * (s.phase i).left (s.iterations i) + s.untilRelease

omit [DecidableEq ι] in
/-- No request fails while a call that is resolved is not finished. -/
theorem OnCourse.post_ne_none (h : OnCourse chainId calls s i)
    (hresolved : (calls i).Resolved env chainId) (hfinished : ¬ (s.phase i).Finished)
    {url : String} (hurl : resolveUrl env chainId = .ok url) (request : ℕ) :
    env.post url request ≠ none := by
  obtain ⟨tokens, hpost, -⟩ := hresolved (h.source.resolve_left hfinished) url hurl request
  rw [hpost]
  exact Option.some_ne_none tokens

/-- A move of a thread leaves less of its way. -/
theorem left_lt_of_moves (h : OnCourse chainId calls s i)
    (hresolved : (calls i).Resolved env chainId) (hfinished : ¬ (s.phase i).Finished)
    (hmoves : Moves env chainId calls s i s') :
    (s'.phase i).left (s'.iterations i) < (s.phase i).left (s.iterations i) := by
  have hcounts := h.counts
  cases hmoves with
  -- Retries do not count, but a call that is resolved never has to retry.
  | retry url hphase known failed =>
    exact absurd failed (h.post_ne_none hresolved hfinished known _)
  | hit spot hphase found =>
    rw [phase_goto_self, hphase]
    change 0 < if s.iterations i = 0 then 6 else 1
    split_ifs <;> decide
  | miss hphase missing =>
    rw [hphase, missing] at hcounts
    rw [phase_goto_self, hphase, hcounts.resolve_right nofun]
    change 5 < 6
    decide
  | filled hphase found =>
    rw [hphase] at hcounts
    rw [phase_goto_self, hphase]
    change (if s.iterations i = 0 then 6 else 1) < 4
    rw [if_neg (by rw [hcounts]; decide)]
    decide
  | write metadata hphase =>
    rw [hphase] at hcounts
    rw [phase_goto_self, hphase]
    change (if s.iterations i = 0 then 6 else 1) < 2
    rw [if_neg (by rw [hcounts]; decide)]
    decide
  | poison hphase | lock hphase | fetch hphase | fail hphase | answer _ _ hphase =>
    rw [phase_goto_self, hphase, SpotPhase.left, SpotPhase.left]
    decide

omit [DecidableEq ι] in
theorem untilRelease_of_held (h : s.fetchLock = some j) :
    s.untilRelease = (s.phase j).untilRelease := by
  rw [untilRelease, h]

theorem untilRelease_goto (phase : SpotPhase) (h : s.fetchLock = some j) :
    (s.goto j phase).untilRelease = phase.untilRelease := by
  have hlock : (s.goto j phase).fetchLock = some j := h
  rw [untilRelease_of_held hlock, phase_goto_self]

omit [DecidableEq ι] in
theorem untilRelease_le (s : SpotThreads ι) : s.untilRelease ≤ 3 := by
  cases h : s.fetchLock with
  | some j => exact (untilRelease_of_held h).trans_le (SpotPhase.untilRelease_le _)
  | none =>
    rw [untilRelease, h]
    exact Nat.zero_le 3

/-- A move of who holds the lock leaves less of the way until it is released. -/
theorem untilRelease_lt_of_moves (hinv : Inv env chainId s) (hlock : s.fetchLock = some j)
    (hanswers : ∀ url, resolveUrl env chainId = .ok url → ∀ request, env.post url request ≠ none)
    (hmoves : Moves env chainId calls s j s') : s'.untilRelease < s.untilRelease := by
  have hlocked := (hinv.lockHeld j).1 hlock
  rw [untilRelease_of_held hlock]
  cases hmoves with
  | hit _ hphase | miss hphase | poison hphase | lock hphase =>
    rw [hphase] at hlocked
    exact hlocked.elim
  | filled hphase | fail hphase | write _ hphase =>
    rw [hphase]
    exact Nat.zero_lt_succ _
  | fetch hphase =>
    rw [hphase, untilRelease_goto _ hlock]
    exact Nat.lt_succ_self _
  | retry url hphase known failed => exact absurd failed (hanswers url known _)
  | answer url tokens hphase =>
    have hlock' : s.request.fetchLock = some j := hlock
    rw [hphase, untilRelease_goto _ hlock']
    exact Nat.lt_succ_self _

/-- The measure decreases with every step of the thread, and of the one that has the lock. -/
theorem left_lt (hinv : Inv env chainId s) (hcourse : OnCourse chainId calls s i)
    (hresolved : (calls i).Resolved env chainId) (hfinished : ¬ (s.phase i).Finished)
    (hguard : j = i ∨ s.fetchLock = some j) (hmoves : Moves env chainId calls s j s') :
    s'.left i < s.left i := by
  rw [left, left]
  by_cases hij : i = j
  · subst hij
    have hown := left_lt_of_moves hcourse hresolved hfinished hmoves
    have hle := s'.untilRelease_le
    omega
  · have hholder := untilRelease_lt_of_moves hinv (hguard.resolve_left (Ne.symm hij))
      (fun url hurl request => hcourse.post_ne_none hresolved hfinished hurl request) hmoves
    rw [(hmoves.frame hij).1, (hmoves.frame hij).2]
    omega

/-- A call that can be resolved ends within two iterations. -/
theorem endsWithin_of_resolved (hresolved : (calls i).Resolved env chainId) :
    EndsWithin env chainId calls i 2 where
  iterations_le s hs := (onCourse_of_reachable hresolved hs).2.counts.le
  finishes := by
    refine System.ends_of_measure (Reachable (spotThreads env chainId calls)) (left · i)
      (fun _ h => h) ?_ ?_
    · rintro s j s' hs ⟨⟨hfinished, hguard⟩, hstep⟩
      obtain ⟨hinv, hcourse⟩ := onCourse_of_reachable hresolved hs
      exact ⟨hs.step hstep,
        left_lt hinv hcourse hresolved hfinished hguard (moves_of_step hstep)⟩
    · intro s hs hstuck
      by_contra hfinished
      obtain ⟨j, s', hguard, hstep⟩ := exists_step (inv_of_reachable hs) hfinished
      exact hstuck j s' ⟨⟨hfinished, hguard⟩, hstep⟩

/-! ## A thread alone -/

variable (s i) in
/-- The thread is at the start of the loop, and the lock is free. -/
structure Idle : Prop where
  phase : s.phase i = .reading
  fetchLock : s.fetchLock = none
  poisoned : s.poisoned = false

/-- A thread that finds its contract is done. -/
theorem Idle.hit (h : Idle s i) {spot : SpotId}
    (hfound : s.cache.spotEvmMap (calls i).target = some spot) :
    (spotThreads env chainId calls).step s i ((s.iterate i).goto i (.done spot.toS)) := by
  change s.next env chainId calls i = _
  simp only [next, h.phase, hfound]

variable (s i) in
/-- The thread has the lock, and asks the API. -/
structure Asking : Prop where
  phase : s.phase i = .fetching
  fetchLock : s.fetchLock = some i
  poisoned : s.poisoned = false

/-- A thread that misses its contract gets to ask the API. -/
theorem Idle.ask (h : Idle s i) (env : SpotEnv) (chainId : UInt64)
    (hmissing : s.cache.spotEvmMap (calls i).target = none) :
    ∃ ls s', Run (spotThreads env chainId calls) s ls s' ∧ Asking s' i ∧ s'.cache = s.cache ∧
      s'.iterations i = s.iterations i + 1 := by
  let s₁ := (s.iterate i).goto i .locking
  let s₂ := { s₁ with fetchLock := some i }.goto i .rechecking
  let s₃ := s₂.goto i .fetching
  have hstep₁ : s.next env chainId calls i = some s₁ := by
    simp only [next, h.phase, hmissing, s₁]
  have hstep₂ : s₁.next env chainId calls i = some s₂ := by
    have hphase : s₁.phase i = .locking := phase_goto_self _ _ _
    have hlock : s₁.fetchLock = none := h.fetchLock
    have hpoisoned : s₁.poisoned = false := h.poisoned
    simp only [next, hphase, hlock, hpoisoned, s₂]
    rfl
  have hstep₃ : s₂.next env chainId calls i = some s₃ := by
    have hphase : s₂.phase i = .rechecking := phase_goto_self _ _ _
    have hmissing' : s₂.cache.spotEvmMap (calls i).target = none := hmissing
    simp only [next, hphase, hmissing', s₃]
    rfl
  exact ⟨_, s₃, ((Run.single hstep₁).snoc hstep₂).snoc hstep₃,
    ⟨phase_goto_self _ _ _, rfl, h.poisoned⟩, rfl, iterations_iterate_self s i⟩

/-- A request that fails is made again. -/
theorem Asking.retry (h : Asking s i) {url : String} (hurl : resolveUrl env chainId = .ok url)
    (hpost : env.post url s.cache.requests = none) :
    (spotThreads env chainId calls).step s i s.request := by
  change s.next env chainId calls i = _
  simp only [next, h.phase, hurl, hpost]

/-- The mapping is written once the API answers, and the thread starts over. -/
theorem Asking.fetch (h : Asking s i) {url : String} (hurl : resolveUrl env chainId = .ok url)
    {fuel requests : ℕ} {tokens : List SpotToken}
    (hretry : Nanoreth.retry env url fuel s.cache.requests = .ok (tokens, requests)) :
    ∃ ls s', Run (spotThreads env chainId calls) s ls s' ∧ Idle s' i ∧
      s'.cache = ⟨env.toSpotMap chainId tokens, requests⟩ ∧ s'.iterations i = s.iterations i := by
  induction fuel generalizing s with
  | zero => cases hretry
  | succ fuel ih =>
    rw [Nanoreth.retry] at hretry
    cases hpost : env.post url s.cache.requests with
    -- The API failed: the thread asks again, with one request more.
    | none =>
      rw [hpost] at hretry
      obtain ⟨ls, s', hrun, hend⟩ := ih (s := s.request) ⟨h.phase, h.fetchLock, h.poisoned⟩ hretry
      exact ⟨_, s', .cons (h.retry hurl hpost) hrun, hend⟩
    | some answer =>
      rw [hpost] at hretry
      cases hretry
      -- The answer is written, and the lock is released.
      let s₁ := s.request.goto i (.writing (env.toSpotMap chainId tokens))
      let s₂ := { s₁.release with
        cache := ⟨env.toSpotMap chainId tokens, s.cache.requests + 1⟩ }.goto i .reading
      have hstep₁ : s.next env chainId calls i = some s₁ := by
        simp only [next, h.phase, hurl, hpost, s₁]
      have hstep₂ : s₁.next env chainId calls i = some s₂ := by
        have hphase : s₁.phase i = .writing (env.toSpotMap chainId tokens) := phase_goto_self _ _ _
        simp only [next, hphase, s₂]
        rfl
      exact ⟨_, s₂, (Run.single hstep₁).snoc hstep₂, ⟨phase_goto_self _ _ _, rfl, h.poisoned⟩,
        rfl, rfl⟩

/-- An iteration in which the mapping is fetched. -/
theorem Idle.fetch (h : Idle s i) {fuel requests : ℕ} {tokens : List SpotToken}
    (hmissing : s.cache.spotEvmMap (calls i).target = none)
    (hfetch : fetchSpotMeta env chainId fuel s.cache.requests = .ok (tokens, requests)) :
    ∃ ls s', Run (spotThreads env chainId calls) s ls s' ∧ Idle s' i ∧
      s'.cache = ⟨env.toSpotMap chainId tokens, requests⟩ ∧
      s'.iterations i = s.iterations i + 1 := by
  obtain ⟨url, hurl, hretry⟩ := fetchSpotMeta_eq_ok hfetch
  obtain ⟨ls, s₁, hrun, hasking, hcache, hiterations⟩ := h.ask env chainId hmissing
  rw [← hcache] at hretry
  obtain ⟨ls', s', hrun', hidle, hcache', hiterations'⟩ := hasking.fetch hurl hretry
  exact ⟨_, s', hrun.trans hrun', hidle, hcache', hiterations'.trans hiterations⟩

/-- The lookup of a spot asset is what a thread does when no other one runs. -/
theorem run_of_spotToS {fuel : ℕ} {x : U256} {cache' : SpotCache} (hidle : Idle s i)
    (h : spotToS env chainId (calls i).target fuel s.cache = .ok (x, cache')) :
    ∃ ls s', Run (spotThreads env chainId calls) s ls s' ∧ s'.phase i = .done x ∧
      s'.cache = cache' := by
  induction fuel generalizing s with
  | zero => cases h
  | succ fuel ih =>
    rw [spotToS_succ] at h
    cases hmap : s.cache.spotEvmMap (calls i).target with
    | some spot =>
      rw [hmap] at h
      cases h
      exact ⟨_, _, .single (hidle.hit hmap), phase_goto_self _ _ _, rfl⟩
    | none =>
      cases hfetch : fetchSpotMeta env chainId fuel s.cache.requests with
      | error halt => simp only [hmap, hfetch, reduceCtorEq] at h
      | ok answer =>
        obtain ⟨tokens, requests⟩ := answer
        simp only [hmap, hfetch] at h
        obtain ⟨ls, s₁, hrun, hidle₁, hcache, -⟩ := hidle.fetch hmap hfetch
        rw [← hcache] at h
        obtain ⟨ls', s', hrun', hdone⟩ := ih hidle₁ h
        exact ⟨_, s', hrun.trans hrun', hdone⟩

/-- The conversion of a call is that of a thread, when no other one runs. -/
theorem run_of_conversion {fuel : ℕ} {cache cache' : SpotCache} {tx : TransactionSigned}
    (h : systemTxToRethTransaction env fuel chainId (calls i).blockNumber (calls i).transaction
      cache = .ok (tx, cache')) :
    ∃ s₀ ls s x, (spotThreads env chainId calls).init s₀ ∧ s₀.cache = cache ∧
      Run (spotThreads env chainId calls) s₀ ls s ∧ s.phase i = .done x ∧ s.cache = cache' ∧
      tx = ⟨.legacy ⟨(calls i).tx, ⟨1, x, true⟩⟩⟩ := by
  let s₀ : SpotThreads ι :=
    ⟨cache, none, false, fun j => ((calls j).source chainId).phase, fun _ => 0⟩
  have hinit : (spotThreads env chainId calls).init s₀ := ⟨rfl, rfl, fun _ => ⟨rfl, rfl⟩⟩
  simp only [systemTxToRethTransaction, (calls i).tx_eq, (calls i).target_eq, bind_eq_ok,
    pure_eq_ok, Prod.mk.injEq] at h
  obtain ⟨x, cache₁, hx, rfl, rfl⟩ := h
  -- A sender that needs no lookup is known at the start.
  cases hsource : (calls i).source chainId with
  | upstream sender | testnetLog sender | hype =>
    rw [LegacyCall.source] at hsource
    rw [hsource, SenderSource.toS, pure_eq_ok, Prod.mk.injEq] at hx
    obtain ⟨rfl, rfl⟩ := hx
    refine ⟨s₀, [], s₀, _, hinit, rfl, .nil, ?_, rfl, rfl⟩
    change ((calls i).source chainId).phase = _
    rw [LegacyCall.source, hsource]
    rfl
  | spot =>
    have hidle : s₀.Idle i := by
      refine ⟨?_, rfl, rfl⟩
      change ((calls i).source chainId).phase = _
      rw [hsource]
      rfl
    rw [LegacyCall.source] at hsource
    rw [hsource] at hx
    obtain ⟨ls, s, hrun, hdone, hcache⟩ := run_of_spotToS hidle hx
    exact ⟨s₀, ls, s, x, hinit, rfl, hrun, hdone, hcache, rfl⟩

/-- A thread that looks a spot asset up, and has not started. -/
theorem exists_idle (env : SpotEnv) (hsource : (calls i).source chainId = .spot) :
    ∃ s, (spotThreads env chainId calls).init s ∧ Idle s i ∧
      s.cache.spotEvmMap (calls i).target = none ∧ s.iterations i = 0 := by
  refine ⟨⟨⟨fun _ => none, 0⟩, none, false, fun j => ((calls j).source chainId).phase,
    fun _ => 0⟩, ⟨rfl, rfl, fun _ => ⟨rfl, rfl⟩⟩, ⟨?_, rfl, rfl⟩, rfl, rfl⟩
  change ((calls i).source chainId).phase = _
  rw [hsource]
  rfl

/-- If the mapping that is fetched does not have the contract, a thread may start any number of
    iterations. -/
theorem exists_iterations (hsource : (calls i).source chainId = .spot) {url : String}
    (hurl : resolveUrl env chainId = .ok url) {tokens : List SpotToken}
    (hpost : ∀ request, env.post url request = some tokens)
    (hlists : ¬env.Lists chainId tokens (calls i).target) (n : ℕ) :
    ∃ s, Reachable (spotThreads env chainId calls) s ∧ Idle s i ∧
      s.cache.spotEvmMap (calls i).target = none ∧ s.iterations i = n := by
  induction n with
  | zero =>
    obtain ⟨s, hinit, hidle⟩ := exists_idle env hsource
    exact ⟨s, .init hinit, hidle⟩
  | succ n ih =>
    obtain ⟨s, hreachable, hidle, hmissing, hiterations⟩ := ih
    have hfetch : fetchSpotMeta env chainId 1 s.cache.requests =
        .ok (tokens, s.cache.requests + 1) := by
      rw [fetchSpotMeta, hurl]
      simp only [Nanoreth.retry, hpost]
    obtain ⟨ls, s', hrun, hidle', hcache, hiterations'⟩ := hidle.fetch hmissing hfetch
    refine ⟨s', hreachable.run hrun, hidle', ?_, by rw [hiterations', hiterations]⟩
    rw [hcache, ← Option.not_isSome_iff_eq_none, SpotEnv.isSome_toSpotMap_iff]
    exact hlists

/-- If no request is answered, the API may be asked any number of times. -/
theorem Asking.exists_run (h : Asking s i) (calls : ι → LegacyCall) {url : String}
    (hurl : resolveUrl env chainId = .ok url) (hpost : ∀ request, env.post url request = none)
    (n : ℕ) :
    ∃ ls s', Run (finishing env chainId calls i) s ls s' ∧ Asking s' i ∧ ls.length = n := by
  induction n with
  | zero => exact ⟨[], s, .nil, h, rfl⟩
  | succ n ih =>
    obtain ⟨ls, s', hrun, hasking, hlen⟩ := ih
    have hfinished : ¬ (s'.phase i).Finished := by
      rw [hasking.phase]
      exact id
    exact ⟨_, s'.request, hrun.snoc ⟨⟨hfinished, .inl rfl⟩, hasking.retry hurl (hpost _)⟩,
      ⟨hasking.phase, hasking.fetchLock, hasking.poisoned⟩, by simp [hlen]⟩

/-- A conversion that asks an API that never answers does not end. -/
theorem not_ends_of_post_eq_none (hsource : (calls i).source chainId = .spot) {url : String}
    (hurl : resolveUrl env chainId = .ok url) (hpost : ∀ request, env.post url request = none) :
    ¬ (finishing env chainId calls i).Ends fun s => (s.phase i).Finished := by
  intro hends
  obtain ⟨s₀, hinit, hidle, hmissing, -⟩ := exists_idle env hsource
  obtain ⟨ls, s, hrun, hasking, -⟩ := hidle.ask env chainId hmissing
  obtain ⟨bound, hbound⟩ := hends s ((Reachable.init hinit).run hrun)
  obtain ⟨ls', s', hrun', -, hlen⟩ := hasking.exists_run calls hurl hpost (bound + 1)
  have hle := (hbound ls' s' hrun').1
  omega

end SpotThreads

/-- The conversion of a call of a contract ends, whatever the mapping is and the other threads do,
    if and only if the spot asset is not looked up, or no API is known (a panic), or the API
    answers and lists the contract, or it answers and a patch or an override does. It then ends
    in the second iteration at the latest. -/
theorem conversion_ends_iff (hfixed : env.Fixed) (i : ι) :
    ((∃ bound, EndsWithin env chainId calls i bound) ↔ (calls i).Resolved env chainId) ∧
    ((calls i).Resolved env chainId → EndsWithin env chainId calls i 2) := by
  have hends : (calls i).Resolved env chainId → EndsWithin env chainId calls i 2 :=
    SpotThreads.endsWithin_of_resolved
  refine ⟨⟨fun ⟨bound, h⟩ hsource url hurl request => ?_, fun h => ⟨2, hends h⟩⟩, hends⟩
  cases hpost : env.post url request with
  | none =>
    have hnone : ∀ n, env.post url n = none := fun n =>
      (hfixed url n).trans ((hfixed url request).symm.trans hpost)
    exact absurd h.finishes (SpotThreads.not_ends_of_post_eq_none hsource hurl hnone)
  | some tokens =>
    have hsome : ∀ n, env.post url n = some tokens := fun n =>
      (hfixed url n).trans ((hfixed url request).symm.trans hpost)
    refine ⟨tokens, rfl, not_not.1 fun hlists => ?_⟩
    obtain ⟨s, hreachable, -, -, hiterations⟩ :=
      SpotThreads.exists_iterations hsource hurl hsome hlists (bound + 1)
    have hle := h.iterations_le s hreachable
    omega

end Threads

/-- The lookup goes on for ever if neither the cache nor what is fetched has the contract. -/
theorem spotToS_outOfFuel {env : SpotEnv} {chainId : UInt64} {target : Address} {url : String}
    (hurl : resolveUrl env chainId = .ok url) {tokens : List SpotToken}
    (hpost : ∀ request, env.post url request = some tokens)
    (hlists : ¬env.Lists chainId tokens target) (fuel : ℕ) {cache : SpotCache}
    (hmissing : cache.spotEvmMap target = none) :
    spotToS env chainId target fuel cache = .error .outOfFuel := by
  induction fuel generalizing cache with
  | zero => rfl
  | succ fuel ih =>
    cases fuel with
    | zero => simp only [spotToS_succ, hmissing, fetchSpotMeta, hurl, retry]
    | succ fuel =>
      have hfetch : fetchSpotMeta env chainId (fuel + 1) cache.requests =
          .ok (tokens, cache.requests + 1) := by
        simp only [fetchSpotMeta, hurl, retry, hpost]
      rw [spotToS_succ, hmissing]
      simp only [hfetch]
      refine ih ?_
      rw [← Option.not_isSome_iff_eq_none, SpotEnv.isSome_toSpotMap_iff]
      exact hlists

/-- The API of mainnet, with the tokens it answers, or none if it fails. -/
def mainnetApi (answer : Option (List SpotToken)) : SpotEnv where
  urlOverride := none
  spotMetaUrl := none
  post _ _ := answer
  manualOverrides := []

/-- A transfer of a token. -/
def tokenTransfer : TxLegacy where
  chainId := some mainnetChainId
  nonce := 0
  gasPrice := 0
  gasLimit := 200000
  target := .call 0xbeef
  value := 0
  input := [0xa9]

/-- A call of the token contract. -/
def tokenCall : LegacyCall where
  transaction := ⟨.legacy tokenTransfer, some ⟨.legacy, true, 0, []⟩, none⟩
  blockNumber := 1
  tx := tokenTransfer
  target := 0xbeef
  tx_eq := rfl
  target_eq := rfl

/-- The API lists the token: two transfers are converted at once. If it fails, neither conversion
    ends. -/
theorem conversion_ends_listed :
    EndsWithin (mainnetApi (some [⟨7, some 0xbeef⟩])) mainnetChainId (fun _ : Bool => tokenCall)
      true 2 ∧
    ¬ ∃ bound, EndsWithin (mainnetApi none) mainnetChainId (fun _ : Bool => tokenCall)
      true bound := by
  refine ⟨(conversion_ends_iff (mainnetApi (some [⟨7, some 0xbeef⟩])) mainnetChainId
    (fun _ : Bool => tokenCall) (fun _ _ => rfl) true).2 ?_, ?_⟩
  · intro _ url _ request
    exact ⟨_, rfl, .inl (List.mem_singleton.2 rfl)⟩
  · rw [(conversion_ends_iff (mainnetApi none) mainnetChainId (fun _ : Bool => tokenCall)
      (fun _ _ => rfl) true).1]
    intro hresolved
    obtain ⟨tokens, hpost, -⟩ := hresolved rfl _ rfl 0
    cases hpost

/-- The API does not list the token: it is asked again and again. -/
theorem conversion_spins : (mainnetApi (some [])).Fixed ∧ ∀ fuel,
    systemTxToRethTransaction (mainnetApi (some [])) fuel mainnetChainId tokenCall.blockNumber
      tokenCall.transaction ⟨fun _ => none, 0⟩ = .error .outOfFuel := by
  refine ⟨fun _ _ => rfl, fun fuel => ?_⟩
  have hspins : spotToS (mainnetApi (some [])) mainnetChainId tokenCall.target fuel
      ⟨fun _ => none, 0⟩ = .error .outOfFuel := by
    refine spotToS_outOfFuel rfl (fun _ => rfl) ?_ fuel rfl
    unfold SpotEnv.Lists
    decide
  change (spotToS (mainnetApi (some [])) mainnetChainId tokenCall.target fuel _).bind _ = _
  rw [hspins]
  rfl

end Nanoreth
