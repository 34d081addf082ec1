import Nanoreth.Lib.Partial
import Nanoreth.Primitives.Transaction

/-!
# Spot metadata

The token contracts of spot assets (`spot_meta/mod.rs`, `spot_meta/patch.rs`). A
system transaction to such a contract is sent by the address of the spot asset,
`0x20` followed by its index (`SpotId.toS`).

The mapping from contracts to assets is fetched from an API (`fetchSpotMeta`), patched on testnet,
and overridden by the mappings given to the node (`erc20ContractToSpotToken`). The answers of the
API are a parameter of the model. A request that fails is made again, without a limit. The node
keeps the last mapping it has fetched (`SpotCache`).
-/

namespace Nanoreth

open Partial

/-- The chain id of mainnet. -/
def mainnetChainId : UInt64 := 999

/-- The chain id of testnet. -/
def testnetChainId : UInt64 := 998

/-- A spot asset, by its index. -/
structure SpotId where
  index : UInt64
  deriving DecidableEq

/-- The `s` encoding the address of a spot asset: of its 32 bytes, the 12th is
    `0x20` and the last 8 are the index. -/
def SpotId.toS (spot : SpotId) : U256 :=
  (0x20#256 <<< 152) + spot.index.toBitVec.setWidth 256

/-- A token, with its contract if it has one. -/
structure SpotToken where
  index : UInt64
  evmContract : Option Address
  deriving DecidableEq

/-- The spot assets of token contracts. -/
abbrev SpotMap := Address → Option SpotId

/-- Maps a contract to a spot asset. -/
def SpotMap.insert (map : SpotMap) (address : Address) (spot : SpotId) : SpotMap :=
  Function.update map address (some spot)

/-- What the node is given to resolve spot assets. -/
structure SpotEnv where
  /-- The URL of the API given on the command line. -/
  urlOverride : Option String
  /-- The URL of the API given by the environment (`SPOT_META_URL`). -/
  spotMetaUrl : Option String
  /-- The tokens the API at a URL answers to the `n`-th request, which may fail. -/
  post : String → ℕ → Option (List SpotToken)
  /-- The mappings overriding those of the API. -/
  manualOverrides : List (Address × UInt64)

/-- The mapping last fetched, and the number of requests made to the API. -/
structure SpotCache where
  spotEvmMap : SpotMap
  requests : ℕ

/-- Computations reading and filling the cache of spot assets. -/
abbrev SpotM := StateT SpotCache (Except Halt)

/-- The fix of the mapping of testnet. -/
def patchTestnetSpotMeta (map : SpotMap) : SpotMap :=
  (map.insert 0xd9cbec81df392a88aeff575e962d149d57f4d6bc ⟨0⟩).insert
    0x2b3370ee501b4a559b57d449569354196457d8ab ⟨0⟩

/-- The mapping of the tokens of the API, before patches. -/
def tokensToMap (tokens : List SpotToken) : SpotMap :=
  tokens.foldl (fun map token => match token.evmContract with
    | some address => map.insert address ⟨token.index⟩
    | none => map) fun _ => none

variable (env : SpotEnv)

/-- The API is the one given to the node, and otherwise that of the chain. -/
def resolveUrl (chainId : UInt64) : Except String String :=
  match env.urlOverride, env.spotMetaUrl.filter (· ≠ "") with
  | some url, _ => .ok url
  | none, some url => .ok url
  | none, none =>
    if chainId = mainnetChainId then .ok "https://api.hyperliquid.xyz/info"
    else if chainId = testnetChainId then .ok "https://api.hyperliquid-testnet.xyz/info"
    else .error "unknown chain id"

/-- The mapping made of the tokens of the API. -/
def SpotEnv.toSpotMap (chainId : UInt64) (tokens : List SpotToken) : SpotMap :=
  env.manualOverrides.foldl (fun map (address, index) => map.insert address ⟨index⟩)
    (if chainId = testnetChainId then patchTestnetSpotMeta (tokensToMap tokens)
      else tokensToMap tokens)

/-- Asks the API, from the given request on, until it answers. The tokens come with the number of
    requests made so far. -/
def retry (url : String) : ℕ → ℕ → Except Halt (List SpotToken × ℕ)
  | 0, _ => .error .outOfFuel
  | fuel + 1, request =>
    match env.post url request with
    | some tokens => .ok (tokens, request + 1)
    | none => retry url fuel (request + 1)

/-- Fetches the tokens. The node panics if no API is known. -/
def fetchSpotMeta (chainId : UInt64) (fuel request : ℕ) : Except Halt (List SpotToken × ℕ) :=
  match resolveUrl env chainId with
  | .error message => .error (.panic message)
  | .ok url => retry env url fuel request

/-- Fetches the mapping from token contracts to spot assets. -/
def erc20ContractToSpotToken (chainId : UInt64) (fuel : ℕ) : SpotM SpotMap := fun cache =>
  match fetchSpotMeta env chainId fuel cache.requests with
  | .error halt => .error halt
  | .ok (tokens, requests) =>
    .ok (env.toSpotMap chainId tokens, { cache with requests := requests })

/-- The `s` of a system transaction to the token contract `target`: its spot asset
    is looked up in the cache, which is fetched again until it is there. The fuel is for the
    iterations and for the requests of each. -/
def spotToS (chainId : UInt64) (target : Address) : ℕ → SpotM U256
  | 0 => throw .outOfFuel
  | fuel + 1 => do
    match (← get).spotEvmMap target with
    | some spot => return spot.toS
    | none =>
      -- The fetch lock is taken here: the cache is read again under it, as another
      -- thread may have filled it meanwhile.
      if ((← get).spotEvmMap target).isSome then
        spotToS chainId target fuel
      else
        let metadata ← erc20ContractToSpotToken env chainId fuel
        modify fun cache => { cache with spotEvmMap := metadata }
        spotToS chainId target fuel

variable {env}

/-- Tokens that are fetched are the answer to a request. -/
theorem retry_eq_ok {url : String} {fuel request requests : ℕ} {tokens : List SpotToken}
    (h : retry env url fuel request = .ok (tokens, requests)) :
    ∃ answered, env.post url answered = some tokens := by
  induction fuel generalizing request with
  | zero => cases h
  | succ fuel ih =>
    rw [retry] at h
    cases hpost : env.post url request with
    | none =>
      rw [hpost] at h
      exact ih h
    | some answer =>
      rw [hpost] at h
      cases h
      exact ⟨request, hpost⟩

/-- If the fetch succeeds, there was an address to fetch from. -/
theorem fetchSpotMeta_eq_ok {chainId : UInt64} {fuel request requests : ℕ}
    {tokens : List SpotToken}
    (h : fetchSpotMeta env chainId fuel request = .ok (tokens, requests)) :
    ∃ url, resolveUrl env chainId = .ok url ∧
      retry env url fuel request = .ok (tokens, requests) := by
  rw [fetchSpotMeta] at h
  cases hurl : resolveUrl env chainId with
  | error message =>
    rw [hurl] at h
    cases h
  | ok url =>
    rw [hurl] at h
    exact ⟨url, rfl, h⟩

/-- An iteration of the lookup: nothing changes the cache between the two reads of it. -/
theorem spotToS_succ (env : SpotEnv) (chainId : UInt64) (target : Address) (fuel : ℕ)
    (cache : SpotCache) :
    spotToS env chainId target (fuel + 1) cache =
      match cache.spotEvmMap target with
      | some spot => .ok (spot.toS, cache)
      | none =>
        match fetchSpotMeta env chainId fuel cache.requests with
        | .error halt => .error halt
        | .ok (tokens, requests) =>
          spotToS env chainId target fuel ⟨env.toSpotMap chainId tokens, requests⟩ := by
  have hget {α : Type} (f : SpotCache → SpotM α) : (get >>= f) cache = f cache cache := rfl
  rw [spotToS, hget]
  cases hspot : cache.spotEvmMap target with
  | some spot => rfl
  | none =>
    change (get >>= _ : SpotM U256) cache = _
    rw [hget, hspot, Option.isSome_none, if_neg Bool.false_ne_true]
    change (erc20ContractToSpotToken env chainId fuel cache).bind _ = _
    rw [erc20ContractToSpotToken]
    cases fetchSpotMeta env chainId fuel cache.requests <;> rfl

/-- The number that a token is encoded as. -/
theorem toNat_toS (spot : SpotId) : spot.toS.toNat = 2 ^ 157 + spot.index.toNat := by
  have hlt := spot.index.toNat_lt
  rw [SpotId.toS, BitVec.toNat_add, BitVec.toNat_setWidth, UInt64.toNat_toBitVec,
    Nat.mod_eq_of_lt (a := spot.index.toNat) (by omega)]
  change (2 ^ 157 + spot.index.toNat) % 2 ^ 256 = _
  exact Nat.mod_eq_of_lt (by omega)

/-- The address of a spot asset is none of the escaped ones. -/
theorem addressToS_sToAddress_toS (spot : SpotId) :
    addressToS (sToAddress spot.toS) = spot.toS := by
  have hnat := toNat_toS spot
  have hlt := spot.index.toNat_lt
  have hhype : hypeSystemAddress.toNat = 0x2222222222222222222222222222222222222222 := by decide
  apply addressToS_sToAddress_of_lt
  · omega
  · intro h
    rw [h] at hnat
    change 1 = _ at hnat
    omega
  · omega

end Nanoreth
