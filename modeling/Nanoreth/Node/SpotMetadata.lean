import Nanoreth.PseudoPeer.LatestBlock
import Nanoreth.Types.SpotFetch

/-!
# Spot metadata across restarts

What becomes of the mapping from token contracts to spot assets while nodes are started and stopped
on a data directory (`main.rs`, `node/cli.rs`, `spot_meta/mod.rs`, `spot_meta/init.rs`,
`types/reth_compat.rs`):

* `init-state` stores the mapping it fetches, unless one is stored;
* a node starts with the mapping that is stored, if it can be read. When it misses a contract, it
  fetches a new one, and stores it;
* `clear-spot-meta` deletes what is stored.

A mapping has the overrides of the process that fetched it. A node applies its own only when it
fetches, so they have no effect on a contract of the mapping it has started with. But when the
mapping is cleared, and all later processes override a contract in the same way, then so do all
conversions. If everything is written and read, a restart makes no difference to what a node
knows (`spotMetadata_of_run`).

The overrides are given by flags, or by a variable of the environment. A node that is given no flag
takes the variable for one, and does not start if a part of it is invalid; elsewhere, such parts are
ignored. In the mapping that is fetched, the variable wins over the flags (`spotMap_precedence`).
-/

namespace Nanoreth

open Lines Overwrite Partial Paths Transition

/-! ## Overrides -/

/-- The characters that are trimmed. -/
def isWhitespace (c : Char) : Bool :=
  (0x9 ≤ c.toNat && c.toNat ≤ 0xd) || c.toNat = 0x20 || c.toNat = 0x85 || c.toNat = 0xa0 ||
    c.toNat = 0x1680 || (0x2000 ≤ c.toNat && c.toNat ≤ 0x200a) || c.toNat = 0x2028 ||
    c.toNat = 0x2029 || c.toNat = 0x202f || c.toNat = 0x205f || c.toNat = 0x3000

/-- The text without what is trimmed at its ends. -/
def trim (text : Text) : Text :=
  ((text.dropWhile isWhitespace).reverse.dropWhile isWhitespace).reverse

/-- How addresses are read from texts, and the message for texts that are no numbers. -/
structure OverrideReader where
  addressFromStr : Text → Except String Address
  parseIntError : Text → String

section Overrides

variable (reader : OverrideReader)

/-- The contract and the spot asset of an override. -/
def parseSpotMetaOverride (s : Text) : Except String (Address × UInt64) :=
  let text := String.ofList s
  match splitOnce ':' s with
  | none => .error s!"invalid override '{text}', expected 'address:index'"
  | some (addr, index) =>
    -- The address is parsed first, so that its error is the one that is reported.
    match reader.addressFromStr (trim addr), parseU64 (trim index) with
    | .error e, _ => .error s!"invalid address in override '{text}': {e}"
    | .ok _, none =>
      let e := reader.parseIntError (trim index)
      .error s!"invalid index in override '{text}': {e}"
    | .ok address, some index => .ok (address, index)

/-- The valid parts of the variable. -/
def variableOverrides (raw : Option Text) : List (Address × UInt64) :=
  ((((raw.map (·.splitOn ',')).getD []).map trim).filter (· ≠ [])).filterMap fun entry =>
    (parseSpotMetaOverride reader entry).toOption

/-- The flags and variables that a process is started with, and the API it asks. -/
structure SpotSettings where
  urlFlag : Option String
  overrideFlags : List Text
  spotMetaUrl : Option String
  spotMetaOverrides : Option Text
  post : String → ℕ → Option (List SpotToken)

namespace SpotSettings

variable (settings : SpotSettings)

/-- The values of the flag of the overrides. Each may have several parts. If there are none, those
    of the variable are taken. -/
def overrideArgs : List Text :=
  if settings.overrideFlags ≠ [] then settings.overrideFlags.flatMap (·.splitOn ',')
  else (settings.spotMetaOverrides.map (·.splitOn ',')).getD []

/-- What `init-state` resolves spot assets with: it has no flags of its own. -/
def initStateEnv : SpotEnv where
  urlOverride := none
  spotMetaUrl := settings.spotMetaUrl
  post := settings.post
  manualOverrides := variableOverrides reader settings.spotMetaOverrides

/-- What a node resolves spot assets with, unless a flag is invalid. -/
def nodeEnv : Except String SpotEnv := do
  let flags ← settings.overrideArgs.mapM (parseSpotMetaOverride reader)
  return {
    urlOverride := (settings.urlFlag.or settings.spotMetaUrl).filter (· ≠ "")
    spotMetaUrl := settings.spotMetaUrl
    post := settings.post
    manualOverrides := flags ++ variableOverrides reader settings.spotMetaOverrides }

end SpotSettings

variable {reader}

/-- The entries of the patch come first. -/
theorem patchTestnetSpotMeta_apply (map : SpotMap) (target : Address) :
    patchTestnetSpotMeta map target =
      (patchTestnetSpotMeta (fun _ => none) target).or (map target) := by
  simp only [patchTestnetSpotMeta, SpotMap.insert, Function.update_apply]
  split_ifs <;> rfl

/-- **Precedence**: the mapping that a node fetches has a contract by the last part of the variable
    that overrides it, or else by the last flag, or else by the patch of testnet, or else by the
    API. -/
theorem spotMap_precedence {settings : SpotSettings} {env : SpotEnv}
    (h : settings.nodeEnv reader = .ok env) (chainId : UInt64) (tokens : List SpotToken)
    (target : Address) :
    ∃ flags, settings.overrideArgs.mapM (parseSpotMetaOverride reader) = .ok flags ∧
      env.toSpotMap chainId tokens target =
        (((lastEntry (variableOverrides reader settings.spotMetaOverrides) target).or
          (lastEntry flags target)).map SpotId.mk).or
        ((if chainId = testnetChainId then patchTestnetSpotMeta (fun _ => none) target
          else none).or (tokensToMap tokens target)) := by
  obtain ⟨flags, hflags, h⟩ := except_bind_eq_ok.1 h
  cases h
  refine ⟨flags, hflags, ?_⟩
  refine (foldl_update_eq (fun _ index => (⟨index⟩ : SpotId)) _ _ target).trans ?_
  rw [lastEntry_append]
  congr 1
  split_ifs
  · exact patchTestnetSpotMeta_apply _ target
  · rfl

end Overrides

/-! ## Threads -/

namespace SpotThreads

variable {ι : Type} [DecidableEq ι] {env : SpotEnv} {chainId : UInt64} {calls : ι → LegacyCall}
  {s s' : SpotThreads ι} {i j : ι}

/-- The mapping changes when a thread writes. -/
theorem Moves.spotEvmMap_eq (h : Moves env chainId calls s j s') :
    s'.cache.spotEvmMap = match s.phase j with
      | .writing metadata => metadata
      | _ => s.cache.spotEvmMap := by
  cases h with
  | hit _ hphase | miss hphase | poison hphase | lock hphase | filled hphase | fetch hphase
  | fail hphase | retry _ hphase | answer _ _ hphase | write _ hphase =>
    rw [hphase]
    rfl

/-- A thread that is done has found its contract. -/
theorem Moves.done_cases (h : Moves env chainId calls s j s') {x : U256}
    (hdone : s'.phase i = .done x) :
    s.phase i = .done x ∨ i = j ∧ ∃ spot, s.cache.spotEvmMap (calls j).target = some spot ∧
      x = spot.toS := by
  by_cases hij : i = j
  · subst hij
    cases h with
    | hit spot hphase found =>
      have hphase' := (phase_goto_self (s.iterate i) i (.done spot.toS)).symm.trans hdone
      cases hphase'
      exact .inr ⟨rfl, spot, found, rfl⟩
    | miss hphase | poison hphase | lock hphase | filled hphase | fetch hphase
    | fail hphase | answer _ _ hphase | write _ hphase =>
      cases (phase_goto_self _ i _).symm.trans hdone
    | retry _ hphase => exact .inl hdone
  · rw [(h.frame hij).1] at hdone
    exact .inl hdone

end SpotThreads

/-! ## What is stored -/

/-- How mappings are stored. -/
structure SpotCodec (B : Type) where
  encode : SpotMap → B
  decode : B → Option SpotMap
  decode_encode : ∀ metadata, decode (encode metadata) = some metadata

/-- A node that is running, with the threads that convert calls. -/
structure NodeProcess (ι : Type) where
  env : SpotEnv
  calls : ι → LegacyCall
  threads : SpotThreads ι

/-- What is stored in a data directory, and the node that runs on it. -/
structure Datadir (B ι : Type) where
  stored : Option B
  node : Option (NodeProcess ι)

/-- What happens on a data directory: a command, or a step of a thread of the node. What is written
    by it may be lost, and what is read may fail to be. -/
inductive DatadirLabel (ι : Type)
  | initState (settings : SpotSettings) (request : ℕ) (saved : Bool)
  | start (settings : SpotSettings) (calls : ι → LegacyCall) (readable : Bool)
  | thread (i : ι) (saved : Bool)
  | stop
  | clearSpotMeta

section Datadir

variable {B ι : Type} [DecidableEq ι] (reader : OverrideReader) (codec : SpotCodec B)
  (chainId : UInt64)

/-- The mapping a node starts with. -/
def loadSpotMetadataCache (stored : Option B) (readable : Bool) : SpotMap :=
  if readable then (stored.bind codec.decode).getD fun _ => none else fun _ => none

/-- What is stored after `init-state`, if its requests are answered. -/
def initSpotMetadata (env : SpotEnv) (fuel request : ℕ) (saved : Bool) (stored : Option B) :
    Option (Option B) :=
  if stored.isSome then some stored
  else
    match erc20ContractToSpotToken env chainId fuel ⟨fun _ => none, request⟩ with
    | .error .outOfFuel => none
    -- An error is only logged.
    | .error (.panic _) => some stored
    | .ok (metadata, _) => some (if saved then some (codec.encode metadata) else stored)

/-- What is stored after a thread has taken a step in a phase: it writes what it has fetched. -/
def persistSpotMetadata (phase : SpotPhase) (saved : Bool) (stored : Option B) : Option B :=
  match phase with
  | .writing metadata => if saved then some (codec.encode metadata) else stored
  | _ => stored

/-- A data directory, from an empty one on. Only one process runs on it at a time. -/
def datadir : System (Datadir B ι) (DatadirLabel ι) where
  init s := s.stored = none ∧ s.node = none
  step s l s' :=
    match l with
    | .initState settings request saved => s.node = none ∧ ∃ fuel stored,
      initSpotMetadata codec chainId (settings.initStateEnv reader) fuel request saved s.stored =
        some stored ∧ s' = { s with stored := stored }
    -- Only one process uses the directory at a time.
    | .start settings calls readable => s.node = none ∧ ∃ env threads,
      settings.nodeEnv reader = .ok env ∧ (spotThreads env chainId calls).init threads ∧
      threads.cache = ⟨loadSpotMetadataCache codec s.stored readable, 0⟩ ∧
      s' = { s with node := some ⟨env, calls, threads⟩ }
    | .thread i saved => ∃ p threads, s.node = some p ∧
      p.threads.next p.env chainId p.calls i = some threads ∧
      s' = ⟨persistSpotMetadata codec (p.threads.phase i) saved s.stored,
        some { p with threads := threads }⟩
    | .stop => s' = { s with node := none }
    | .clearSpotMeta => s.node = none ∧ s' = { s with stored := none }

/-- What the processes since the last deletion resolve spot assets with. -/
def processes (ls : List (DatadirLabel ι)) : List SpotEnv :=
  ls.foldl (fun envs l => match l with
    | .initState settings _ _ => envs ++ [settings.initStateEnv reader]
    | .start settings _ _ => envs ++ (settings.nodeEnv reader).toOption.toList
    | .clearSpotMeta => []
    | _ => envs) []

/-- What is written is stored, and what is stored is read. -/
def DatadirLabel.Saves : DatadirLabel ι → Prop
  | .initState _ _ saved => saved = true
  | .start _ _ readable => readable = true
  | .thread _ saved => saved = true
  | _ => True

/-- One of the processes has fetched a mapping, with its overrides. -/
def Mapped (envs : List SpotEnv) (metadata : SpotMap) : Prop :=
  ∃ env ∈ envs, SpotThreads.Fetched env chainId metadata

/-! ## Runs -/

variable {reader codec chainId} {s s' : Datadir B ι} {ls : List (DatadirLabel ι)}
  {l : DatadirLabel ι}

omit [DecidableEq ι] in
/-- A step may begin a process, or clear them all. -/
theorem processes_append_singleton (ls : List (DatadirLabel ι)) (l : DatadirLabel ι) :
    processes reader (ls ++ [l]) = match l with
      | .initState settings _ _ => processes reader ls ++ [settings.initStateEnv reader]
      | .start settings _ _ => processes reader ls ++ (settings.nodeEnv reader).toOption.toList
      | .clearSpotMeta => []
      | _ => processes reader ls := by
  unfold processes
  rw [List.foldl_append]
  cases l <;> rfl

theorem Mapped.mono {envs envs' : List SpotEnv} {metadata : SpotMap} (hsub : envs ⊆ envs')
    (h : Mapped chainId envs metadata) : Mapped chainId envs' metadata := by
  obtain ⟨env, henv, hfetched⟩ := h
  exact ⟨env, hsub henv, hfetched⟩

variable (codec chainId) in
/-- What is known was fetched by the given processes. -/
structure Kept (envs : List SpotEnv) (s : Datadir B ι) : Prop where
  stored : ∀ row, s.stored = some row → ∃ metadata, row = codec.encode metadata ∧
    Mapped chainId envs metadata
  env : ∀ p, s.node = some p → p.env ∈ envs
  inv : ∀ p, s.node = some p → SpotThreads.Inv p.env chainId p.threads
  cache : ∀ p, s.node = some p → ∀ target spot, p.threads.cache.spotEvmMap target = some spot →
    ∃ metadata, Mapped chainId envs metadata ∧ metadata target = some spot
  done : ∀ p, s.node = some p → ∀ i x, (p.calls i).source chainId = .spot →
    p.threads.phase i = .done x → ∃ metadata spot, Mapped chainId envs metadata ∧
      metadata (p.calls i).target = some spot ∧ x = spot.toS

/-- The stored map stays, or is replaced by a fetched one. -/
theorem initSpotMetadata_cases {env : SpotEnv} {fuel request : ℕ} {saved : Bool}
    {stored stored' : Option B}
    (h : initSpotMetadata codec chainId env fuel request saved stored = some stored') :
    stored' = stored ∨ ∃ metadata, SpotThreads.Fetched env chainId metadata ∧
      stored' = some (codec.encode metadata) := by
  -- A stored map is left alone; otherwise the map is fetched, and stored if that succeeds.
  unfold initSpotMetadata at h
  by_cases hsome : stored.isSome
  · rw [if_pos hsome] at h
    exact .inl (Option.some.inj h).symm
  · rw [if_neg hsome, erc20ContractToSpotToken] at h
    cases hfetch : fetchSpotMeta env chainId fuel request with
    | error halt =>
      simp only [hfetch] at h
      cases halt with
      | outOfFuel => cases h
      | panic message => exact .inl (Option.some.inj h).symm
    | ok answer =>
      obtain ⟨tokens, requests⟩ := answer
      simp only [hfetch, Option.some.injEq] at h
      obtain ⟨url, hurl, hretry⟩ := fetchSpotMeta_eq_ok hfetch
      obtain ⟨answered, hpost⟩ := retry_eq_ok hretry
      split_ifs at h
      · exact .inr ⟨_, ⟨url, answered, tokens, hurl, hpost, rfl⟩, h.symm⟩
      · exact .inl h.symm

/-- The invariant is kept when the state is initialised. -/
theorem Kept.initState (h : Kept codec chainId (processes reader ls) s) {settings : SpotSettings}
    {request : ℕ} {saved : Bool}
    (hstep : (datadir reader codec chainId).step s (.initState settings request saved) s') :
    Kept codec chainId (processes reader (ls ++ [.initState settings request saved])) s' := by
  obtain ⟨hnode, fuel, stored, hinit, rfl⟩ := hstep
  rw [processes_append_singleton]
  refine ⟨fun row hrow => ?_, fun p hp => ?_, fun p hp => ?_, fun p hp => ?_, fun p hp => ?_⟩
  · rcases initSpotMetadata_cases hinit with hstored | ⟨metadata, hfetched, hstored⟩
    · obtain ⟨metadata, hmetadata, hmapped⟩ := h.stored row (hstored.symm.trans hrow)
      exact ⟨metadata, hmetadata, hmapped.mono (List.subset_append_left _ _)⟩
    · cases hstored.symm.trans hrow
      exact ⟨metadata, rfl, _, List.mem_append_right _ (List.mem_singleton_self _), hfetched⟩
  all_goals cases hnode.symm.trans hp

/-- The invariant is kept when a node starts. -/
theorem Kept.start (h : Kept codec chainId (processes reader ls) s) {settings : SpotSettings}
    {calls : ι → LegacyCall} {readable : Bool}
    (hstep : (datadir reader codec chainId).step s (.start settings calls readable) s') :
    Kept codec chainId (processes reader (ls ++ [.start settings calls readable])) s' := by
  obtain ⟨-, env, threads, henv, hinit, hcache, rfl⟩ := hstep
  have hprocesses : processes reader (ls ++ [.start settings calls readable]) =
      processes reader ls ++ [env] := by
    rw [processes_append_singleton]
    simp only [henv]
    rfl
  have hsub : processes reader ls ⊆ processes reader ls ++ [env] := List.subset_append_left _ _
  rw [hprocesses]
  constructor
  case stored =>
    intro row hrow
    obtain ⟨metadata, hmetadata, hmapped⟩ := h.stored row hrow
    exact ⟨metadata, hmetadata, hmapped.mono hsub⟩
  case env =>
    rintro p ⟨⟩
    exact List.mem_append_right _ (List.mem_singleton_self _)
  case inv =>
    rintro p ⟨⟩
    exact SpotThreads.inv_of_reachable (.init hinit)
  case cache =>
    rintro p ⟨⟩ target spot hspot
    rw [hcache] at hspot
    simp only [loadSpotMetadataCache] at hspot
    split_ifs at hspot
    cases hstored : s.stored with
    | none =>
      rw [hstored] at hspot
      cases hspot
    | some row =>
      obtain ⟨metadata, rfl, hmapped⟩ := h.stored row hstored
      rw [hstored, Option.bind_some, codec.decode_encode] at hspot
      exact ⟨metadata, hmapped.mono hsub, hspot⟩
  case done =>
    rintro p ⟨⟩ i x hsource hdone
    -- No thread that looks up a contract is done at the start.
    change threads.phase i = _ at hdone
    rw [(hinit.2.2 i).1, hsource] at hdone
    cases hdone

/-- The invariant is kept when a thread of the node goes on. -/
theorem Kept.thread (h : Kept codec chainId (processes reader ls) s) {i : ι} {saved : Bool}
    (hstep : (datadir reader codec chainId).step s (.thread i saved) s') :
    Kept codec chainId (processes reader (ls ++ [.thread i saved])) s' := by
  obtain ⟨p, threads, hnode, hnext, rfl⟩ := hstep
  have hprocesses : processes reader (ls ++ [.thread i saved]) = processes reader ls :=
    processes_append_singleton ls _
  have hmoves := SpotThreads.moves_of_step hnext
  have hinv := h.inv p hnode
  -- What a thread writes was fetched by the process of the node.
  have hwritten : ∀ metadata, p.threads.phase i = .writing metadata →
      Mapped chainId (processes reader ls) metadata := fun metadata hphase =>
    ⟨p.env, h.env p hnode, hinv.fetched i metadata hphase⟩
  rw [hprocesses]
  constructor
  case stored =>
    intro row hrow
    simp only [persistSpotMetadata] at hrow
    split at hrow
    · next metadata hphase =>
      split_ifs at hrow
      · cases hrow
        exact ⟨metadata, rfl, hwritten metadata hphase⟩
      · exact h.stored row hrow
    · exact h.stored row hrow
  case env =>
    rintro p' ⟨⟩
    exact h.env p hnode
  case inv =>
    rintro p' ⟨⟩
    exact hinv.of_moves hmoves
  case cache =>
    rintro p' ⟨⟩ target spot hspot
    change threads.cache.spotEvmMap target = some spot at hspot
    rw [hmoves.spotEvmMap_eq] at hspot
    split at hspot
    · next metadata hphase => exact ⟨metadata, hwritten metadata hphase, hspot⟩
    · exact h.cache p hnode target spot hspot
  case done =>
    rintro p' ⟨⟩ j x hsource hdone
    -- A thread that is done now found its contract in the map of this process.
    rcases hmoves.done_cases hdone with hdone | ⟨rfl, spot, hspot, hx⟩
    · exact h.done p hnode j x hsource hdone
    · obtain ⟨metadata, hmapped, hspot⟩ := h.cache p hnode _ spot hspot
      exact ⟨metadata, spot, hmapped, hspot, hx⟩

/-- Every step keeps the invariant. -/
theorem Kept.step (h : Kept codec chainId (processes reader ls) s)
    (hstep : (datadir reader codec chainId).step s l s') :
    Kept codec chainId (processes reader (ls ++ [l])) s' := by
  cases l with
  | initState => exact h.initState hstep
  | start => exact h.start hstep
  | thread => exact h.thread hstep
  | stop =>
    obtain rfl := hstep
    rw [processes_append_singleton]
    refine ⟨h.stored, fun p hp => ?_, fun p hp => ?_, fun p hp => ?_, fun p hp => ?_⟩
    all_goals cases hp
  | clearSpotMeta =>
    obtain ⟨hnode, rfl⟩ := hstep
    refine ⟨fun row hrow => ?_, fun p hp => ?_, fun p hp => ?_, fun p hp => ?_, fun p hp => ?_⟩
    · cases hrow
    all_goals cases hnode.symm.trans hp

/-- The invariant holds along every run. -/
theorem kept_of_run {s₀ : Datadir B ι} (hinit : (datadir reader codec chainId).init s₀)
    (hrun : Run (datadir reader codec chainId) s₀ ls s) :
    Kept codec chainId (processes reader ls) s := by
  refine hrun.invariant (P := fun ls s => Kept codec chainId (processes reader ls) s) ?_
    fun _ _ _ _ hs hstep => hs.step hstep
  obtain ⟨hstored, hnode⟩ := hinit
  refine ⟨fun row hrow => ?_, fun p hp => ?_, fun p hp => ?_, fun p hp => ?_, fun p hp => ?_⟩
  · cases hstored.symm.trans hrow
  all_goals cases hnode.symm.trans hp

/-- If everything is written and read, what a node knows is what is stored. -/
theorem load_of_run {s₀ : Datadir B ι} (hinit : (datadir reader codec chainId).init s₀)
    (hrun : Run (datadir reader codec chainId) s₀ ls s) (hsaves : ∀ l ∈ ls, l.Saves) :
    ∀ p, s.node = some p →
      loadSpotMetadataCache codec s.stored true = p.threads.cache.spotEvmMap := by
  -- By induction on the run. A node loads the map when it starts, and every later write is saved.
  induction hrun with
  | nil =>
    intro p hp
    cases hinit.2.symm.trans hp
  | @snoc ls s l s' _ hstep ih =>
    rw [List.forall_mem_append, List.forall_mem_singleton] at hsaves
    intro p' hp'
    cases l with
    | initState settings request saved =>
      obtain ⟨hnode, _, _, -, rfl⟩ := hstep
      cases hnode.symm.trans hp'
    | start settings calls readable =>
      obtain ⟨-, env, threads, -, -, hcache, rfl⟩ := hstep
      cases hp'
      rw [hcache, show readable = true from hsaves.2]
    | thread i saved =>
      obtain ⟨p, threads, hnode, hnext, rfl⟩ := hstep
      cases hp'
      change loadSpotMetadataCache codec _ true = threads.cache.spotEvmMap
      rw [(SpotThreads.moves_of_step hnext).spotEvmMap_eq, show saved = true from hsaves.2]
      cases p.threads.phase i with
      -- What was just saved is read back by the codec.
      | writing metadata => exact congrArg (Option.getD · _) (codec.decode_encode metadata)
      | reading | locking | rechecking | fetching | done | panicked => exact ih hsaves.1 p hnode
    | stop =>
      obtain rfl := hstep
      cases hp'
    | clearSpotMeta =>
      obtain ⟨hnode, rfl⟩ := hstep
      cases hnode.symm.trans hp'

/-- An override comes before what was fetched. -/
theorem toSpotMap_of_override {env : SpotEnv} {target : Address} {index : UInt64}
    (h : lastEntry env.manualOverrides target = some index) (tokens : List SpotToken) :
    env.toSpotMap chainId tokens target = some ⟨index⟩ := by
  have hoverrides : env.toSpotMap chainId tokens target = _ :=
    foldl_update_eq (fun _ index => (⟨index⟩ : SpotId)) env.manualOverrides _ target
  rw [hoverrides, h]
  rfl

/-- After every run from an empty data directory:

    * what is stored was fetched since the last deletion, with the overrides of the process that
      fetched it;
    * so was what a call is converted with. If all processes since the last deletion override its
      contract by the same index, it is converted with that one;
    * a node that is started again knows what it knew, if everything was written and is read. -/
theorem spotMetadata_of_run {s₀ : Datadir B ι} (hinit : (datadir reader codec chainId).init s₀)
    (hrun : Run (datadir reader codec chainId) s₀ ls s) :
    (∀ row, s.stored = some row → ∃ metadata, row = codec.encode metadata ∧
      Mapped chainId (processes reader ls) metadata) ∧
    (∀ p, s.node = some p → ∀ i x, (p.calls i).source chainId = .spot →
      p.threads.phase i = .done x →
      (∃ metadata spot, Mapped chainId (processes reader ls) metadata ∧
        metadata (p.calls i).target = some spot ∧ x = spot.toS) ∧
      ∀ index, (∀ env ∈ processes reader ls,
        lastEntry env.manualOverrides (p.calls i).target = some index) →
          x = (⟨index⟩ : SpotId).toS) ∧
    ((∀ l ∈ ls, l.Saves) → ∀ p, s.node = some p →
      loadSpotMetadataCache codec s.stored true = p.threads.cache.spotEvmMap) := by
  have hkept := kept_of_run hinit hrun
  refine ⟨hkept.stored, fun p hp i x hsource hdone => ?_, load_of_run hinit hrun⟩
  obtain ⟨metadata, spot, hmapped, hspot, rfl⟩ := hkept.done p hp i x hsource hdone
  refine ⟨⟨metadata, spot, hmapped, hspot, rfl⟩, fun index hindex => ?_⟩
  obtain ⟨env, henv, url, request, tokens, -, -, rfl⟩ := hmapped
  rw [toSpotMap_of_override (hindex env henv)] at hspot
  cases hspot
  rfl

end Datadir

/-! ### An override -/

/-- A node on mainnet that is told to map the token at `0xbeef` to the spot asset 9, by the
    variable. The API maps it to 7. -/
def overriding9 : SpotSettings where
  urlFlag := none
  overrideFlags := []
  spotMetaUrl := none
  spotMetaOverrides := some "0x000000000000000000000000000000000000beef:9".toList
  post _ _ := some [⟨7, some 0xbeef⟩]

/-- Without the override. -/
def plainSettings : SpotSettings := { overriding9 with spotMetaOverrides := none }

/-- It knows one address. -/
def plainReader : OverrideReader where
  addressFromStr text :=
    if text = "0x000000000000000000000000000000000000beef".toList then .ok 0xbeef
    else .error "invalid string length"
  parseIntError _ := "invalid digit found in string"

/-- A mapping is stored as it is. -/
def plainCodec : SpotCodec SpotMap := ⟨id, some, fun _ => rfl⟩

/-- The node is given another spot asset by a flag, too. -/
def overriding5 : SpotSettings :=
  { overriding9 with overrideFlags := ["0x000000000000000000000000000000000000beef:5".toList] }

/-- The flag is read, but the variable wins. -/
theorem spotMap_precedence_variable : ∃ env, overriding5.nodeEnv plainReader = .ok env ∧
    env.toSpotMap mainnetChainId [⟨7, some 0xbeef⟩] 0xbeef = some ⟨9⟩ := by
  have hvariable : lastEntry (variableOverrides plainReader overriding5.spotMetaOverrides) 0xbeef =
      some 9 := by decide +kernel
  have hstarts : (overriding5.nodeEnv plainReader).toOption.isSome := by decide +kernel
  cases henv : overriding5.nodeEnv plainReader with
  | error message =>
    rw [henv] at hstarts
    cases hstarts
  | ok env =>
    obtain ⟨flags, -, hmap⟩ := spotMap_precedence henv mainnetChainId [⟨7, some 0xbeef⟩] 0xbeef
    rw [hvariable] at hmap
    exact ⟨env, rfl, hmap⟩

/-- A comma at the end of the variable keeps a node from starting that is given no flag. -/
example : (SpotSettings.nodeEnv plainReader { overriding9 with
    spotMetaOverrides := some "0x000000000000000000000000000000000000beef:9,".toList }).isOk =
      false := by
  decide +kernel

/-- The threads of a node at its start, with the mapping that is loaded. -/
def startThreads (metadata : SpotMap) : SpotThreads Unit :=
  ⟨⟨metadata, 0⟩, none, false, fun _ => .reading, fun _ => 0⟩

/-- What the node with the override resolves spot assets with. -/
def overridden9 : SpotEnv :=
  { mainnetApi (some [⟨7, some 0xbeef⟩]) with manualOverrides := [(0xbeef, 9), (0xbeef, 9)] }

theorem nodeEnv_overriding9 : overriding9.nodeEnv plainReader = .ok overridden9 := rfl

/-- The mapping of `init-state` is stored, so the override of the node has no effect. It has one
    when the mapping is cleared. -/
theorem spotMetadata_of_run_cleared : ∃ ls₁ s₁ p₁ ls₂ s₂ p₂,
    Run (datadir plainReader plainCodec mainnetChainId) ⟨none, none⟩ ls₁ s₁ ∧
    s₁.node = some p₁ ∧ p₁.env = overridden9 ∧
    p₁.threads.phase () = .done (⟨7⟩ : SpotId).toS ∧
    Run (datadir plainReader plainCodec mainnetChainId) s₁ (.stop :: .clearSpotMeta :: ls₂) s₂ ∧
    s₂.node = some p₂ ∧ p₂.env = overridden9 ∧
    p₂.threads.phase () = .done (⟨9⟩ : SpotId).toS := by
  -- A process without the override stores a map, and the node loads it.
  have hrun₁ : Run (datadir plainReader plainCodec mainnetChainId) ⟨none, none⟩
      [.initState plainSettings 0 true, .start overriding9 (fun _ => tokenCall) true,
        .thread () true] _ :=
    .cons ⟨rfl, 1, _, rfl, rfl⟩ (.cons ⟨rfl, overridden9, startThreads _, nodeEnv_overriding9,
      ⟨rfl, rfl, fun _ => ⟨rfl, rfl⟩⟩, rfl, rfl⟩ (.single ⟨_, _, rfl, rfl, rfl⟩))
  have hstep : ∀ {s : Datadir SpotMap Unit} {p threads}, s.node = some p →
      p.threads.next p.env mainnetChainId p.calls () = some threads →
      (datadir plainReader plainCodec mainnetChainId).step s (.thread () true)
        ⟨persistSpotMetadata plainCodec (p.threads.phase ()) true s.stored,
          some { p with threads := threads }⟩ := fun hp hnext => ⟨_, _, hp, hnext, rfl⟩
  -- After the map was cleared, the node has to fetch it again, with the override.
  have hrun₂ : ∀ s : Datadir SpotMap Unit, Run (datadir plainReader plainCodec mainnetChainId) s
      [.stop, .clearSpotMeta, .start overriding9 (fun _ => tokenCall) true, .thread () true,
        .thread () true, .thread () true, .thread () true, .thread () true, .thread () true] _ :=
    fun s => .cons rfl (.cons ⟨rfl, rfl⟩ (.cons ⟨rfl, overridden9, startThreads fun _ => none,
      nodeEnv_overriding9, ⟨rfl, rfl, fun _ => ⟨rfl, rfl⟩⟩, rfl, rfl⟩
      (.cons (hstep rfl rfl) (.cons (hstep rfl rfl) (.cons (hstep rfl rfl)
        (.cons (hstep rfl rfl) (.cons (hstep rfl rfl) (.single (hstep rfl rfl)))))))))
  refine ⟨_, _, _, _, _, _, hrun₁, rfl, rfl, rfl, hrun₂ _, rfl, rfl, ?_⟩
  have hdone := ((spotMetadata_of_run ⟨rfl, rfl⟩ (hrun₁.trans (hrun₂ _))).2.1 _ rfl () _ rfl rfl).2
    9 fun env henv => ?_
  · exact congrArg SpotPhase.done hdone
  · obtain rfl := List.mem_singleton.1 henv
    rfl

end Nanoreth
