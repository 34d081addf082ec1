import Nanoreth.Evm.ReadPrecompileForwarder
import Nanoreth.HlNodeCompliance.Subscriptions

/-!
# Methods of the RPC servers

Which handler answers a request to the node (`main.rs`, `addons/`). The node starts with the methods
of reth on each transport, and then replaces some of them and adds others, as its flags say. The
name of a method is that of its attribute after the namespace of the trait that declares it
(`RpcExtension.methods`). How reth and jsonrpsee register methods is a parameter (`RpcLibrary`), and
`RpcLibrary.Registers` is what is assumed of it.

If requests select by themselves whether they are compliant ones, the servers are then stopped, and
started again with the methods captured before (`restartServers`).

Transactions are forwarded to an upstream node, which is then asked for the receipt until there is
one, for half a minute at most (`EthForwarderExt.sendRawTransactionSync`).

* `rpcMethods_spec`: if there are clients for the URLs, a method is answered by the last extension
  that declares it, or else by reth, other than `eth_getProof`, which is disabled by default. Two
  methods of the forwarder are declared with the namespace in their names, so that reth goes on
  answering those, and panics for one of them;
* `restartServers_spec`: the servers are started again with the methods they had, if they can be;
* `sendRawTransactionSync_spec`: the transaction is sent once, and the answer is the first receipt
  or error, or that there was none in time.
-/

namespace Nanoreth

open Overwrite Partial

/-! ## Methods -/

/-- The handlers that the node adds to those of reth. -/
inductive RpcExtension
  | ethForwarder
  | callForwarder
  | subscribeFixup
  | filterHttp
  | filterWs
  | blockFilterHttp
  | systemTransaction
  | sync
  | blockPrecompile
  deriving DecidableEq

namespace RpcExtension

/-- The namespace of the trait. -/
def rpcNamespace : RpcExtension → String
  | .sync => "hl"
  | _ => "eth"

/-- The names of the attributes. A subscription has two methods. -/
def methodNames : RpcExtension → List String
  | .ethForwarder => ["sendRawTransaction", "eth_sendTransaction", "eth_sendRawTransactionSync"]
  | .callForwarder => ["call", "estimateGas"]
  | .subscribeFixup => ["subscribe", "unsubscribe"]
  | .filterHttp => ["getLogs", "getFilterLogs", "getFilterChanges"]
  | .filterWs => ["subscribe", "unsubscribe"]
  | .blockFilterHttp =>
    ["getBlockByHash", "getBlockByNumber", "getBlockReceipts", "getBlockReceiptsWithSystemTx",
     "getBlockTransactionCountByHash", "getBlockTransactionCountByNumber", "getTransactionReceipt"]
  | .systemTransaction =>
    ["getEvmSystemTxsByBlockHash", "getEvmSystemTxsByBlockNumber",
     "getEvmSystemTxsReceiptsByBlockHash", "getEvmSystemTxsReceiptsByBlockNumber"]
  | .sync => ["syncGetBlock", "syncGetBlocks", "syncLatestBlockNumber"]
  | .blockPrecompile => ["blockPrecompileData"]

/-- The names of the methods in requests. -/
def methods (extension : RpcExtension) : List String :=
  extension.methodNames.map fun name => extension.rpcNamespace ++ "_" ++ name

end RpcExtension

/-- Who answers a method. -/
inductive RpcHandler
  /-- The handler of reth. -/
  | stock
  | extension (extension : RpcExtension)
  deriving DecidableEq

/-- The methods of the transports that are configured, which are of type `M`. -/
structure TransportRpcModules (M : Type) where
  http : Option M
  ws : Option M
  ipc : Option M

/-- Two methods have one name. -/
structure RegisterMethodError where
  debug : String

/-- How methods are registered, in reth and jsonrpsee. -/
structure RpcLibrary (M : Type) where
  get : M → String → Option RpcHandler
  /-- A module without methods. -/
  newModule : M
  /-- The module after methods were merged into it, or could not be. -/
  merge : M → M → M × Except RegisterMethodError Unit
  replaceConfigured : TransportRpcModules M → RpcExtension →
    Except RegisterMethodError (TransportRpcModules M)
  mergeConfigured : TransportRpcModules M → RpcExtension →
    Except RegisterMethodError (TransportRpcModules M)
  removeMethodFromConfigured : TransportRpcModules M → String → TransportRpcModules M

variable {M : Type}

namespace TransportRpcModules

/-- The methods of all transports. -/
def configured (modules : TransportRpcModules M) : List M :=
  modules.http.toList ++ modules.ws.toList ++ modules.ipc.toList

/-- The transports that are configured are the same, and their methods are related. -/
structure Rel (r : M → M → Prop) (a b : TransportRpcModules M) : Prop where
  http : Option.Rel r a.http b.http
  ws : Option.Rel r a.ws b.ws
  ipc : Option.Rel r a.ipc b.ipc

end TransportRpcModules

open TransportRpcModules

/-- The methods of an extension are answered by it, and the others are as before. -/
def RpcLibrary.Declares (lib : RpcLibrary M) (extension : RpcExtension) (before after : M) : Prop :=
  ∀ name, lib.get after name =
    if name ∈ extension.methods then some (.extension extension) else lib.get before name

/-- What is assumed of the library. Methods are replaced, removed, and merged if they are new, on
    all transports. A module that merges the methods it has stays the same. -/
structure RpcLibrary.Registers (lib : RpcLibrary M) : Prop where
  replaceConfigured : ∀ modules extension, ∃ modules',
    lib.replaceConfigured modules extension = .ok modules' ∧
      Rel (lib.Declares extension) modules modules'
  mergeConfigured : ∀ modules extension,
    (∀ methods ∈ modules.configured, ∀ name ∈ extension.methods, lib.get methods name = none) →
    ∃ modules', lib.mergeConfigured modules extension = .ok modules' ∧
      Rel (lib.Declares extension) modules modules'
  removeMethodFromConfigured : ∀ modules name,
    Rel (fun before after => ∀ name',
        lib.get after name' = if name' = name then none else lib.get before name')
      modules (lib.removeMethodFromConfigured modules name)
  merge_newModule : ∀ methods, lib.merge lib.newModule methods = (methods, .ok ())
  merge_self : ∀ methods, (lib.merge methods methods).1 = methods

/-- The flags that the methods and the forwarder of read precompile calls depend on. -/
structure RpcFlags extends ComplianceFlags where
  upstreamRpcUrl : Option String
  forwardCall : Bool
  forwardReadPrecompiles : Bool
  readPrecompileRpcUrl : Option String
  readPrecompileRpcRateLimit : Option ℕ
  experimentalEthGetProof : Bool
  enableSyncServer : Bool

/-- Why the hook that extends the methods fails. -/
inductive RpcHookError
  | register (error : RegisterMethodError)
  /-- There is no client for the forwarder of read precompile calls. -/
  | client (error : String)
  | panic (halt : Halt)

/-- A forwarder of read precompile calls, by its URL and the requests in a second. -/
structure ReadPrecompileRpc where
  url : String
  rateLimit : Option ℕ

namespace RpcFlags

variable (flags : RpcFlags) (defaultUpstreamRpcUrl : String)

/-- The URL of the node that transactions, and maybe calls, are forwarded to. -/
def upstream : String := flags.upstreamRpcUrl.getD defaultUpstreamRpcUrl

/-- The forwarder that is set. By default, the rate is limited for the official URL only. -/
def readPrecompileRpc : Option ReadPrecompileRpc :=
  if flags.forwardReadPrecompiles then
    let url := flags.readPrecompileRpcUrl.getD (flags.upstream defaultUpstreamRpcUrl)
    some ⟨url, flags.readPrecompileRpcRateLimit.or
      (if url = defaultUpstreamRpcUrl then some 5 else none)⟩
  else none

end RpcFlags

section Hook

variable (lib : RpcLibrary M) (build : String → Except String Unit)

/-- `replace_configured`, in the hook. -/
def replaceOrFail (extension : RpcExtension) (modules : TransportRpcModules M) :
    Except RpcHookError (TransportRpcModules M) :=
  (lib.replaceConfigured modules extension).mapError .register

/-- `merge_configured`, in the hook. -/
def mergeOrFail (extension : RpcExtension) (modules : TransportRpcModules M) :
    Except RpcHookError (TransportRpcModules M) :=
  (lib.mergeConfigured modules extension).mapError .register

/-- `EthForwarderExt::new` and `CallForwarderExt::new`, for which there has to be a client. -/
def newForwarder (upstreamRpcUrl : String) : Except RpcHookError Unit :=
  (build upstreamRpcUrl).mapError fun e => .panic (.panic s!"Failed to build client: {e}")

/-- `ReadPrecompileForwarder::new`, if there is to be one. -/
def newReadPrecompileForwarder : Option ReadPrecompileRpc → Except RpcHookError Unit
  | some rpc => (build rpc.url).mapError .client
  | none => .ok ()

/-- `install` of the compliant handlers. -/
def installCompliant (modules : TransportRpcModules M) :
    Except RpcHookError (TransportRpcModules M) := do
  let modules ← replaceOrFail lib .filterHttp modules
  let modules ← replaceOrFail lib .filterWs modules
  let modules ← replaceOrFail lib .blockFilterHttp modules
  mergeOrFail lib .systemTransaction modules

/-- A step that is only taken with a flag. -/
def installWhen (flag : Bool)
    (install : TransportRpcModules M → Except RpcHookError (TransportRpcModules M))
    (modules : TransportRpcModules M) : Except RpcHookError (TransportRpcModules M) :=
  if flag then install modules else .ok modules

/-- A forwarder to the upstream is installed. -/
def installForwarder (upstreamRpcUrl : String) (extension : RpcExtension)
    (modules : TransportRpcModules M) : Except RpcHookError (TransportRpcModules M) := do
  newForwarder build upstreamRpcUrl
  replaceOrFail lib extension modules

/-- The forwarders of transactions and calls. -/
def installForwarders (upstreamRpcUrl : String) (forwardCall : Bool)
    (modules : TransportRpcModules M) : Except RpcHookError (TransportRpcModules M) := do
  let modules ← installForwarder lib build upstreamRpcUrl .ethForwarder modules
  installWhen forwardCall (installForwarder lib build upstreamRpcUrl .callForwarder) modules

/-- What is installed after the forwarders. -/
def installOthers (flags : RpcFlags) (modules : TransportRpcModules M) :
    Except RpcHookError (TransportRpcModules M) := do
  let modules ← replaceOrFail lib .subscribeFixup modules
  let modules ← installWhen flags.installed.isSome (installCompliant lib) modules
  let modules := if flags.experimentalEthGetProof then modules
    else lib.removeMethodFromConfigured modules "eth_getProof"
  let modules ← installWhen flags.enableSyncServer (mergeOrFail lib .sync) modules
  mergeOrFail lib .blockPrecompile modules

/-- The hook: the methods of the servers, and the forwarder of read precompile calls. -/
def extendRpcModules (defaultUpstreamRpcUrl : String) (flags : RpcFlags)
    (modules : TransportRpcModules M) :
    Except RpcHookError (TransportRpcModules M × Option ReadPrecompileRpc) := do
  let modules ← installForwarders lib build (flags.upstream defaultUpstreamRpcUrl)
    flags.forwardCall modules
  let rpc := flags.readPrecompileRpc defaultUpstreamRpcUrl
  newReadPrecompileForwarder build rpc
  let modules ← installOthers lib flags modules
  return (modules, rpc)

end Hook

/-! ## Who answers -/

/-- The extensions that are installed, in this order. -/
def RpcFlags.extensions (flags : RpcFlags) : List RpcExtension :=
  [.ethForwarder] ++ (if flags.forwardCall then [.callForwarder] else []) ++ [.subscribeFixup] ++
    (if flags.installed.isSome then [.filterHttp, .filterWs, .blockFilterHttp, .systemTransaction]
      else []) ++ (if flags.enableSyncServer then [.sync] else []) ++ [.blockPrecompile]

/-- The methods that are removed. -/
def RpcFlags.removed (flags : RpcFlags) : List String :=
  if flags.experimentalEthGetProof then [] else ["eth_getProof"]

/-- The handler of a method: the last extension that declares it, or else what was there. -/
def overlay (extensions : List RpcExtension) (methods : String → Option RpcHandler)
    (name : String) : Option RpcHandler :=
  ((extensions.reverse.find? fun extension => name ∈ extension.methods).map .extension).or
    (methods name)

/-- Handlers of the methods other than some. -/
def without (removed : List String) (methods : String → Option RpcHandler) (name : String) :
    Option RpcHandler :=
  if name ∈ removed then none else methods name

/-- The extension that is installed last comes first. -/
theorem overlay_append (extensions : List RpcExtension) (extension : RpcExtension)
    (methods : String → Option RpcHandler) (name : String) :
    overlay (extensions ++ [extension]) methods name =
      if name ∈ extension.methods then some (.extension extension)
      else overlay extensions methods name := by
  rw [overlay, List.reverse_append, List.reverse_singleton, List.singleton_append, List.find?_cons]
  by_cases hname : name ∈ extension.methods
  · rw [if_pos hname, decide_eq_true hname]
    rfl
  · rw [if_neg hname, decide_eq_false hname]
    rfl

/-- A method that no extension declares is answered as before. -/
theorem overlay_of_notMem {extensions : List RpcExtension} {methods : String → Option RpcHandler}
    {name : String} (h : ∀ extension ∈ extensions, name ∉ extension.methods) :
    overlay extensions methods name = methods name := by
  rw [overlay, List.find?_eq_none.2 fun extension hextension => by
    simpa using h extension (List.mem_reverse.1 hextension)]
  rfl

/-- Methods that no extension declares can be removed before or after. -/
theorem overlay_without {extensions : List RpcExtension} {methods : String → Option RpcHandler}
    {removed : String} (hremoved : ∀ extension : RpcExtension, removed ∉ extension.methods)
    (name : String) :
    overlay extensions (without [removed] methods) name =
      if name = removed then none else overlay extensions methods name := by
  split_ifs with heq
  · rw [heq, overlay_of_notMem fun extension _ => hremoved extension]
    exact if_pos List.mem_cons_self
  · rw [overlay, without, if_neg fun h => heq (List.mem_singleton.1 h)]
    rfl

namespace TransportRpcModules

variable {r r' r'' : M → M → Prop} {a b c : TransportRpcModules M}

/-- Relations of one transport after the other. -/
theorem Rel.comp (h : Rel r a b) (h' : Rel r' b c) (hcomp : ∀ x y z, r x y → r' y z → r'' x z) :
    Rel r'' a c := by
  have hrel {a b c : Option M} (h : Option.Rel r a b) (h' : Option.Rel r' b c) :
      Option.Rel r'' a c := by
    cases h with
    | none =>
      cases h'
      exact .none
    | some h =>
      cases h' with
      | some h' => exact .some (hcomp _ _ _ h h')
  exact ⟨hrel h.http h'.http, hrel h.ws h'.ws, hrel h.ipc h'.ipc⟩

/-- Related modules are so by a weaker relation. -/
theorem Rel.imp (h : Rel r a b) (himp : ∀ x y, r x y → r' x y) : Rel r' a b := by
  have hrel {a b : Option M} (hab : Option.Rel r a b) : Option.Rel r' a b := by
    cases hab with
    | none => exact .none
    | some hab => exact .some (himp _ _ hab)
  exact ⟨hrel h.http, hrel h.ws, hrel h.ipc⟩

/-- What is configured after is related to what was configured before. -/
theorem Rel.exists_of_mem (h : Rel r a b) {y : M} (hy : y ∈ b.configured) : ∃ x, r x y := by
  have hrel {a b : Option M} (hab : Option.Rel r a b) (hy : y ∈ b.toList) : ∃ x, r x y := by
    cases hab with
    | none => cases hy
    | some hab =>
      rw [List.mem_singleton.1 hy]
      exact ⟨_, hab⟩
  rw [configured, List.mem_append, List.mem_append] at hy
  rcases hy with (hy | hy) | hy
  · exact hrel h.http hy
  · exact hrel h.ws hy
  · exact hrel h.ipc hy

/-- What holds of all methods relates the transports to themselves. -/
theorem rel_self (h : ∀ x ∈ a.configured, r x x) : Rel r a a := by
  have hrel {a : Option M} (ha : ∀ x ∈ a.toList, r x x) : Option.Rel r a a := by
    cases a with
    | none => exact .none
    | some x => exact .some (ha x List.mem_cons_self)
  simp only [configured, List.mem_append, or_imp, forall_and] at h
  exact ⟨hrel h.1.1, hrel h.1.2, hrel h.2⟩

end TransportRpcModules

/-- The methods of reth have no name of those that are added without replacing others. -/
def RpcLibrary.AddsNew (lib : RpcLibrary M) (methods : M) : Prop :=
  ∀ extension ∈ [RpcExtension.systemTransaction, .sync, .blockPrecompile],
    ∀ name ∈ extension.methods, lib.get methods name = none

/-- On each transport, some methods are removed and some extensions are installed. -/
def Installed (lib : RpcLibrary M) (removed : List String) (extensions : List RpcExtension)
    (stock modules : TransportRpcModules M) : Prop :=
  Rel (fun methods methods' => lib.AddsNew methods ∧
    ∀ name, lib.get methods' name = overlay extensions (without removed (lib.get methods)) name)
    stock modules

/-- No extension is installed yet. -/
theorem installed_nil {lib : RpcLibrary M} {modules : TransportRpcModules M}
    (hnew : ∀ methods ∈ modules.configured, lib.AddsNew methods) :
    Installed lib [] [] modules modules :=
  rel_self fun methods hmethods => ⟨hnew methods hmethods, fun _ => rfl⟩

/-- The extensions that are added have no method of another one. -/
theorem notMem_methods {extension other : RpcExtension}
    (hextension : extension ∈ [RpcExtension.systemTransaction, .sync, .blockPrecompile])
    (hne : other ≠ extension) : ∀ name ∈ extension.methods, name ∉ other.methods := by
  simp only [List.mem_cons, List.not_mem_nil, or_false] at hextension
  obtain rfl | rfl | rfl := hextension <;> cases other <;>
    first
    | exact absurd rfl hne
    | decide

namespace Installed

variable {lib : RpcLibrary M} (hlib : lib.Registers) {removed : List String}
  {extensions : List RpcExtension} {stock modules modules' : TransportRpcModules M}

/-- Methods that are declared are installed. -/
theorem declares {extension : RpcExtension} (h : Installed lib removed extensions stock modules)
    (hdeclares : Rel (lib.Declares extension) modules modules') :
    Installed lib removed (extensions ++ [extension]) stock modules' := by
  refine h.comp hdeclares fun methods methods' methods'' hmethods hdeclared => ?_
  refine ⟨hmethods.1, fun name => ?_⟩
  rw [hdeclared name, overlay_append, hmethods.2 name]

include hlib

/-- Methods that are replaced are installed. -/
theorem replace (h : Installed lib removed extensions stock modules) (extension : RpcExtension) :
    ∃ modules', replaceOrFail lib extension modules = .ok modules' ∧
      Installed lib removed (extensions ++ [extension]) stock modules' := by
  obtain ⟨modules', hreplace, hdeclares⟩ := hlib.replaceConfigured modules extension
  refine ⟨modules', ?_, h.declares hdeclares⟩
  rw [replaceOrFail, hreplace]
  rfl

/-- Methods that are merged are installed, if they are new. -/
theorem merge (h : Installed lib removed extensions stock modules) (extension : RpcExtension)
    (hextension : extension ∈ [RpcExtension.systemTransaction, .sync, .blockPrecompile])
    (hfree : extension ∉ extensions) :
    ∃ modules', mergeOrFail lib extension modules = .ok modules' ∧
      Installed lib removed (extensions ++ [extension]) stock modules' := by
  obtain ⟨modules', hmerge, hdeclares⟩ := hlib.mergeConfigured modules extension (by
    intro methods' hmethods' name hname
    obtain ⟨methods, hnew, hget⟩ := h.exists_of_mem hmethods'
    -- The name is neither one of reth nor of an extension before.
    rw [hget name, overlay_of_notMem fun other hother => notMem_methods hextension
      (fun heq => hfree (heq ▸ hother)) name hname, without, hnew extension hextension name hname,
      ite_self])
  refine ⟨modules', ?_, h.declares hdeclares⟩
  rw [mergeOrFail, hmerge]
  rfl

/-- The compliant endpoints are installed. -/
theorem compliant (h : Installed lib removed extensions stock modules)
    (hfree : .systemTransaction ∉ extensions) :
    ∃ modules', installCompliant lib modules = .ok modules' ∧
      Installed lib removed (extensions ++
        [.filterHttp, .filterWs, .blockFilterHttp, .systemTransaction]) stock modules' := by
  obtain ⟨modules₁, h₁, hinstalled₁⟩ := h.replace hlib .filterHttp
  obtain ⟨modules₂, h₂, hinstalled₂⟩ := hinstalled₁.replace hlib .filterWs
  obtain ⟨modules₃, h₃, hinstalled₃⟩ := hinstalled₂.replace hlib .blockFilterHttp
  have hfree₃ : .systemTransaction ∉
      extensions ++ [RpcExtension.filterHttp] ++ [.filterWs] ++ [.blockFilterHttp] := by
    simp [hfree]
  obtain ⟨modules₄, h₄, hinstalled₄⟩ :=
    hinstalled₃.merge hlib .systemTransaction (by decide) hfree₃
  refine ⟨modules₄, except_bind_eq_ok.2 ⟨_, h₁, except_bind_eq_ok.2 ⟨_, h₂,
    except_bind_eq_ok.2 ⟨_, h₃, h₄⟩⟩⟩, ?_⟩
  simpa using hinstalled₄

omit hlib in
/-- What depends on a flag is installed if it is set. -/
theorem installWhen (h : Installed lib removed extensions stock modules) (flag : Bool)
    {install : TransportRpcModules M → Except RpcHookError (TransportRpcModules M)}
    {extensions' : List RpcExtension}
    (hinstall : ∃ modules', install modules = .ok modules' ∧
      Installed lib removed (extensions ++ extensions') stock modules') :
    ∃ modules', Nanoreth.installWhen flag install modules = .ok modules' ∧
      Installed lib removed (extensions ++ if flag then extensions' else []) stock modules' := by
  cases flag with
  | true => exact hinstall
  | false => exact ⟨modules, rfl, by simpa using h⟩

/-- A method of reth is removed. -/
theorem remove {name : String} (h : Installed lib [] extensions stock modules)
    (hname : ∀ extension : RpcExtension, name ∉ extension.methods) :
    Installed lib [name] extensions stock (lib.removeMethodFromConfigured modules name) := by
  refine h.comp (hlib.removeMethodFromConfigured modules name)
    fun methods methods' methods'' hmethods hremoved => ⟨hmethods.1, fun name' => ?_⟩
  rw [hremoved name', hmethods.2 name', overlay_without hname]
  rfl

/-- The method is removed unless the flag is set. -/
theorem removeWhen (flags : RpcFlags) (h : Installed lib [] extensions stock modules) :
    Installed lib flags.removed extensions stock (if flags.experimentalEthGetProof then modules
      else lib.removeMethodFromConfigured modules "eth_getProof") := by
  rw [RpcFlags.removed]
  split_ifs
  · exact h
  · exact h.remove hlib fun extension => by cases extension <;> decide

/-- A forwarder is installed if its client can be built. -/
theorem forwarder {build : String → Except String Unit} {url : String} (hbuild : build url = .ok ())
    (extension : RpcExtension) (h : Installed lib removed extensions stock modules) :
    ∃ modules', installForwarder lib build url extension modules = .ok modules' ∧
      Installed lib removed (extensions ++ [extension]) stock modules' := by
  rw [installForwarder, newForwarder, hbuild]
  exact h.replace hlib extension

/-- Both forwarders are installed if their clients can be built. -/
theorem forwarders {build : String → Except String Unit} {url : String}
    (hbuild : build url = .ok ()) (forwardCall : Bool) (h : Installed lib [] [] stock modules) :
    ∃ modules', installForwarders lib build url forwardCall modules = .ok modules' ∧
      Installed lib [] ([.ethForwarder] ++ if forwardCall then [.callForwarder] else []) stock
        modules' := by
  obtain ⟨modules₁, h₁, hinstalled₁⟩ := h.forwarder hlib hbuild .ethForwarder
  obtain ⟨modules₂, h₂, hinstalled₂⟩ := hinstalled₁.installWhen forwardCall
    (hinstalled₁.forwarder hlib hbuild .callForwarder)
  exact ⟨modules₂, except_bind_eq_ok.2 ⟨_, h₁, h₂⟩, hinstalled₂⟩

/-- What is installed after the forwarders. -/
theorem others (flags : RpcFlags)
    (h : Installed lib [] ([.ethForwarder] ++ if flags.forwardCall then [.callForwarder] else [])
      stock modules) :
    ∃ modules', installOthers lib flags modules = .ok modules' ∧
      Installed lib flags.removed flags.extensions stock modules' := by
  obtain ⟨modules₁, h₁, hinstalled₁⟩ := h.replace hlib .subscribeFixup
  obtain ⟨modules₂, h₂, hinstalled₂⟩ := hinstalled₁.installWhen flags.installed.isSome
    (hinstalled₁.compliant hlib (by cases flags.forwardCall <;> decide))
  have hinstalled₃ := hinstalled₂.removeWhen hlib flags
  obtain ⟨modules₄, h₄, hinstalled₄⟩ := hinstalled₃.installWhen flags.enableSyncServer
    (hinstalled₃.merge hlib .sync (by decide)
      (by cases flags.forwardCall <;> cases flags.installed.isSome <;> decide))
  obtain ⟨modules₅, h₅, hinstalled₅⟩ := hinstalled₄.merge hlib .blockPrecompile (by decide) (by
    cases flags.forwardCall <;> cases flags.installed.isSome <;>
      cases flags.enableSyncServer <;> decide)
  refine ⟨modules₅, except_bind_eq_ok.2 ⟨_, h₁, except_bind_eq_ok.2 ⟨_, h₂,
    except_bind_eq_ok.2 ⟨_, h₄, h₅⟩⟩⟩, ?_⟩
  simpa [RpcFlags.extensions] using hinstalled₅

end Installed

section Extend

variable {lib : RpcLibrary M} {build : String → Except String Unit} {flags : RpcFlags}
  {defaultUrl : String} {modules : TransportRpcModules M}

/-- Without a client for the upstream, the hook panics. -/
theorem extendRpcModules_of_upstream {e : String}
    (hbuild : build (flags.upstream defaultUrl) = .error e) :
    extendRpcModules lib build defaultUrl flags modules =
      .error (.panic (.panic s!"Failed to build client: {e}")) := by
  rw [extendRpcModules, installForwarders, installForwarder, newForwarder, hbuild]
  rfl

variable (hlib : lib.Registers) (hnew : ∀ methods ∈ modules.configured, lib.AddsNew methods)
  (hbuild : build (flags.upstream defaultUrl) = .ok ())
include hlib hnew hbuild

/-- Without a client for the forwarder of read precompile calls, the hook fails. -/
theorem extendRpcModules_of_readPrecompileRpc {rpc : ReadPrecompileRpc} {e : String}
    (hrpc : flags.readPrecompileRpc defaultUrl = some rpc) (hclient : build rpc.url = .error e) :
    extendRpcModules lib build defaultUrl flags modules = .error (.client e) := by
  obtain ⟨modules₁, h₁, -⟩ := (installed_nil hnew).forwarders hlib hbuild flags.forwardCall
  rw [extendRpcModules, h₁, hrpc]
  change (newReadPrecompileForwarder build (some rpc) >>= _) = _
  rw [newReadPrecompileForwarder, hclient]
  rfl

/-- The hook installs what the flags ask for. -/
theorem extendRpcModules_installed
    (hclient : ∀ rpc, flags.readPrecompileRpc defaultUrl = some rpc → build rpc.url = .ok ()) :
    ∃ modules', extendRpcModules lib build defaultUrl flags modules =
        .ok (modules', flags.readPrecompileRpc defaultUrl) ∧
      Installed lib flags.removed flags.extensions modules modules' := by
  obtain ⟨modules₁, h₁, hinstalled₁⟩ := (installed_nil hnew).forwarders hlib hbuild
    flags.forwardCall
  obtain ⟨modules₂, h₂, hinstalled₂⟩ := hinstalled₁.others hlib flags
  have hforwarder : newReadPrecompileForwarder build (flags.readPrecompileRpc defaultUrl) =
      .ok () := by
    cases hrpc : flags.readPrecompileRpc defaultUrl with
    | none => rfl
    | some rpc =>
      rw [newReadPrecompileForwarder, hclient rpc hrpc]
      rfl
  exact ⟨modules₂, except_bind_eq_ok.2 ⟨_, h₁, except_bind_eq_ok.2 ⟨(), hforwarder,
    except_bind_eq_ok.2 ⟨_, h₂, rfl⟩⟩⟩, hinstalled₂⟩

end Extend

/-! ## Submitted transactions -/

/-- The code of errors of the node itself. -/
def internalErrorCode : ℤ := -32603

/-- Why a synchronous submission fails. -/
inductive SubmitError
  | object (error : ErrorObject)
  | transactionConfirmationTimeout (hash : B256) (duration : ℕ)

/-- The node that transactions are forwarded to, where `R` are receipts. A request for a receipt is
    answered after some milliseconds. -/
structure UpstreamNode (R : Type) where
  sendRawTransaction : Bytes → Except ClientError B256
  getTransactionReceipt : B256 → ℕ → ℕ × Except ClientError (Option R)

/-- A request to that node. -/
inductive UpstreamRequest
  | sendRawTransaction (tx : Bytes)
  | getTransactionReceipt (hash : B256)

namespace EthForwarderExt

variable {R : Type}

/-- The error of a request is answered if it is one of the other node. -/
def fromClientError (e : ClientError) (description : String) : ErrorObject :=
  match e with
  | .call e => e
  | .other debug => ⟨internalErrorCode, s!"{description}: {debug}", some "null"⟩

/-- The transaction is forwarded. -/
def sendRawTransaction (upstream : UpstreamNode R) (tx : Bytes) : Except ErrorObject B256 :=
  (upstream.sendRawTransaction tx).mapError (fromClientError · "Failed to send transaction")

/-- The time for all requests, in milliseconds. -/
def timeoutDuration : ℕ := 30000

/-- The time between requests, in milliseconds. -/
def interval : ℕ := 1000

/-- The loop of `sendRawTransactionSync`, with fuel, from a request for the receipt and when it is
    made: how many requests are made, and the result. An answer at the end of the time is taken. -/
def pollReceipt (replies : ℕ → ℕ × Except ClientError (Option R)) (hash : B256) :
    ℕ → ℕ → ℕ → Option (ℕ × Except SubmitError R)
  | 0, _, _ => none
  | fuel + 1, i, requestedAt =>
    let timeout := .error (.transactionConfirmationTimeout hash timeoutDuration)
    let answeredAt := requestedAt + (replies i).1
    -- The time runs out while the request is made, or while the task sleeps before the next one.
    if timeoutDuration < answeredAt then some (i + 1, timeout)
    else
      match (replies i).2 with
      | .error e =>
        some (i + 1, .error (.object (fromClientError e "Failed to get transaction receipt")))
      | .ok (some receipt) => some (i + 1, .ok receipt)
      | .ok none =>
        if timeoutDuration < answeredAt + interval then some (i + 1, timeout)
        else pollReceipt replies hash fuel (i + 1) (answeredAt + interval)

/-- The transaction is forwarded, and its receipt requested: the requests, and the result. -/
def sendRawTransactionSync (upstream : UpstreamNode R) (fuel : ℕ) (tx : Bytes) :
    Option (List UpstreamRequest × Except SubmitError R) :=
  match sendRawTransaction upstream tx with
  | .error e => some ([.sendRawTransaction tx], .error (.object e))
  | .ok hash =>
    (pollReceipt (upstream.getTransactionReceipt hash) hash fuel 0 0).map fun (count, result) =>
      (.sendRawTransaction tx :: List.replicate count (.getTransactionReceipt hash), result)

/-! ### Polling -/

variable (replies : ℕ → ℕ × Except ClientError (Option R))

/-- When a request is made, if all before were answered by no receipt. -/
def requestedAt : ℕ → ℕ
  | 0 => 0
  | i + 1 => requestedAt i + (replies i).1 + interval

/-- When a request is answered. -/
def answeredAt (i : ℕ) : ℕ := requestedAt replies i + (replies i).1

/-- After an answer, there is another request. -/
def Continues (i : ℕ) : Prop :=
  (replies i).2 = .ok none ∧ answeredAt replies i + interval ≤ timeoutDuration

/-- The request that is the last one, and the result. -/
inductive EndsWith (hash : B256) (n : ℕ) : Except SubmitError R → Prop
  | receipt {receipt : R} : answeredAt replies n ≤ timeoutDuration →
      (replies n).2 = .ok (some receipt) → EndsWith hash n (.ok receipt)
  | failed {e : ClientError} : answeredAt replies n ≤ timeoutDuration → (replies n).2 = .error e →
      EndsWith hash n (.error (.object (fromClientError e "Failed to get transaction receipt")))
  | timeout : timeoutDuration < answeredAt replies n ∨
        (replies n).2 = .ok none ∧ timeoutDuration < answeredAt replies n + interval →
      EndsWith hash n (.error (.transactionConfirmationTimeout hash timeoutDuration))

variable {replies}

variable (replies) in
/-- Requests are made at intervals. -/
theorem mul_interval_le_requestedAt (i : ℕ) : i * interval ≤ requestedAt replies i := by
  induction i with
  | zero => exact Nat.zero_le _
  | succ i ih =>
    rw [requestedAt, Nat.succ_mul]
    omega

/-- There is a last request, before the fuel is used up. -/
theorem pollReceipt_spec {hash : B256} {fuel i : ℕ}
    (hfuel : timeoutDuration < (i + fuel) * interval)
    (htime : requestedAt replies i ≤ timeoutDuration) :
    ∃ n result, pollReceipt replies hash fuel i (requestedAt replies i) = some (n + 1, result) ∧
      n * interval ≤ timeoutDuration ∧ (∀ j, i ≤ j → j < n → Continues replies j) ∧
      EndsWith replies hash n result := by
  -- By induction on the fuel; every request takes up at least an interval of the time that is left.
  induction fuel generalizing i with
  | zero =>
    have := mul_interval_le_requestedAt replies i
    rw [Nat.add_zero] at hfuel
    omega
  | succ fuel ih =>
    have hi : i * interval ≤ timeoutDuration := (mul_interval_le_requestedAt replies i).trans htime
    have hnone : ∀ j, i ≤ j → j < i → Continues replies j := fun j hij hji => by omega
    rw [pollReceipt]
    by_cases hlate : timeoutDuration < requestedAt replies i + (replies i).1
    · rw [if_pos hlate]
      exact ⟨i, _, rfl, hi, hnone, .timeout (.inl hlate)⟩
    · rw [if_neg hlate]
      have hanswered : answeredAt replies i ≤ timeoutDuration := Nat.not_lt.1 hlate
      split
      · next e he => exact ⟨i, _, rfl, hi, hnone, .failed hanswered he⟩
      · next receipt hreceipt => exact ⟨i, _, rfl, hi, hnone, .receipt hanswered hreceipt⟩
      · next hreply =>
        split_ifs with hsleep
        · exact ⟨i, _, rfl, hi, hnone, .timeout (.inr ⟨hreply, hsleep⟩)⟩
        · obtain ⟨n, result, hpoll, hn, hcontinues, hends⟩ := ih (i := i + 1) (by
            rw [Nat.add_right_comm]
            exact hfuel) (Nat.not_lt.1 hsleep)
          refine ⟨n, result, hpoll, hn, fun j hij hjn => ?_, hends⟩
          -- The first request had no receipt, and those after it are by induction.
          rcases Nat.eq_or_lt_of_le hij with rfl | hij
          · exact ⟨hreply, Nat.not_lt.1 hsleep⟩
          · exact hcontinues j hij hjn

end EthForwarderExt

open EthForwarderExt in
/-- **Synchronous submission**: the transaction is sent once. If it is accepted, the receipt is
    requested until there is one, a request fails or the time is over, at most 31 times. -/
theorem sendRawTransactionSync_spec {R : Type} (upstream : UpstreamNode R) (tx : Bytes) {fuel : ℕ}
    (hfuel : 31 ≤ fuel) :
    ∃ requests result, sendRawTransactionSync upstream fuel tx = some (requests, result) ∧
      match upstream.sendRawTransaction tx with
      | .error e => requests = [.sendRawTransaction tx] ∧
          result = .error (.object (fromClientError e "Failed to send transaction"))
      | .ok hash => ∃ n ≤ 30, requests = .sendRawTransaction tx ::
            List.replicate (n + 1) (.getTransactionReceipt hash) ∧
          (∀ j < n, Continues (upstream.getTransactionReceipt hash) j) ∧
          EndsWith (upstream.getTransactionReceipt hash) hash n result := by
  rw [sendRawTransactionSync, sendRawTransaction]
  cases upstream.sendRawTransaction tx with
  | error e => exact ⟨_, _, rfl, rfl, rfl⟩
  | ok hash =>
    obtain ⟨n, result, hpoll, hn, hcontinues, hends⟩ := @pollReceipt_spec R
      (upstream.getTransactionReceipt hash) hash fuel 0
      (by rw [timeoutDuration, interval]; omega) (Nat.zero_le _)
    rw [requestedAt] at hpoll
    refine ⟨_, result, congrArg (Option.map _) hpoll, n, ?_, rfl, fun j hj =>
      hcontinues j (Nat.zero_le j) hj, hends⟩
    rw [timeoutDuration, interval] at hn
    omega

/-- The receipt is there at the third request. -/
def thirdUpstream : UpstreamNode Unit where
  sendRawTransaction _ := .ok 1
  getTransactionReceipt _ i := (0, .ok (if i = 2 then some () else none))

/-- After three requests, the receipt is the answer. -/
theorem sendRawTransactionSync_spec_third :
    EthForwarderExt.sendRawTransactionSync thirdUpstream 31 [] =
      some (.sendRawTransaction [] :: List.replicate 3 (.getTransactionReceipt 1), .ok ()) := by
  obtain ⟨requests, result, hsync, n, -, hrequests, hcontinues, hends⟩ :=
    sendRawTransactionSync_spec thirdUpstream [] (Nat.le_refl 31)
  -- The third request has a receipt, so there is no fourth one.
  have hn : n < 3 := by
    by_contra hn
    cases (hcontinues 2 (Nat.lt_of_lt_of_le (by decide) (Nat.not_lt.1 hn))).1
  rw [hsync, hrequests]
  have htwo : n = 2 ∧ result = .ok () := by
    cases hends with
    | receipt _ hreceipt =>
      refine ⟨?_, rfl⟩
      by_contra hne
      change Except.ok (if n = 2 then some () else none) = _ at hreceipt
      rw [if_neg hne] at hreceipt
      cases hreceipt
    | failed _ hfailed => cases hfailed
    | timeout hlate =>
      obtain rfl | rfl | rfl : n = 0 ∨ n = 1 ∨ n = 2 := by omega
      all_goals simp [thirdUpstream, EthForwarderExt.answeredAt, EthForwarderExt.requestedAt,
        EthForwarderExt.timeoutDuration, EthForwarderExt.interval] at hlate
  obtain ⟨rfl, rfl⟩ := htwo
  rfl

/-- `send_raw_transaction` of the node's own handlers. -/
def HlEthApi.sendRawTransaction (_tx : Bytes) : Except Halt B256 :=
  .error (.panic "internal error: entered unreachable code")

/-- `eth_sendRawTransactionSync` of reth, given how a transaction is submitted to the node. -/
abbrev StockSync (R : Type) :=
  (Bytes → Except Halt B256) → Bytes → Except Halt (Except SubmitError R)

/-- What is assumed of it: the transaction is submitted, and it panics if this does. -/
def SubmitsFirst {R : Type} (sync : StockSync R) : Prop :=
  ∀ submit tx halt, submit tx = .error halt → sync submit tx = .error halt

/-- What a handler does for a transaction of `eth_sendRawTransactionSync`: the requests it makes to
    the other node, and its answer. The handler of reth has no client for that node. -/
def RpcHandler.sendRawTransactionSync {R : Type} (sync : StockSync R) (upstream : UpstreamNode R)
    (fuel : ℕ) (tx : Bytes) :
    RpcHandler → List UpstreamRequest × Except Halt (Except SubmitError R)
  | .stock => ([], sync HlEthApi.sendRawTransaction tx)
  | .extension _ =>
    match EthForwarderExt.sendRawTransactionSync upstream fuel tx with
    | some (requests, result) => (requests, .ok result)
    | none => ([], .error .outOfFuel)

/-- The last extension that declares a method. -/
def RpcFlags.declaring (flags : RpcFlags) (name : String) : Option RpcExtension :=
  flags.extensions.reverse.find? fun extension => name ∈ extension.methods

/-- The extensions that declare the methods of interest. -/
theorem RpcFlags.declaring_eq (flags : RpcFlags) :
    flags.declaring "eth_sendRawTransaction" = some .ethForwarder ∧
      flags.declaring "eth_subscribe" =
        some (if flags.installed.isSome then .filterWs else .subscribeFixup) ∧
      ∀ name ∈ ["eth_sendTransaction", "eth_sendRawTransactionSync", "eth_getProof"],
        flags.declaring name = none := by
  simp only [declaring, extensions]
  cases flags.forwardCall <;> cases flags.installed.isSome <;> cases flags.enableSyncServer <;>
    decide

/-- **Methods**: without a client for the URL of a forwarder, the hook panics or fails. Otherwise,
    where the methods that are added are new, the forwarder of read precompile calls is set as the
    flags say, and each method is answered by the last extension that declares it, or else by reth.
    Only `eth_getProof` is removed, by default. Raw transactions are forwarded, and requests for the
    synchronous method of reth panic without being forwarded. -/
theorem rpcMethods_spec {lib : RpcLibrary M} (hlib : lib.Registers)
    (build : String → Except String Unit) (defaultUrl : String) (flags : RpcFlags)
    (modules : TransportRpcModules M)
    (hnew : ∀ methods ∈ modules.configured, lib.AddsNew methods) :
    (∀ e, build (flags.upstream defaultUrl) = .error e →
      extendRpcModules lib build defaultUrl flags modules =
        .error (.panic (.panic s!"Failed to build client: {e}"))) ∧
    (build (flags.upstream defaultUrl) = .ok () →
      (∀ rpc e, flags.readPrecompileRpc defaultUrl = some rpc → build rpc.url = .error e →
        extendRpcModules lib build defaultUrl flags modules = .error (.client e)) ∧
      ((∀ rpc, flags.readPrecompileRpc defaultUrl = some rpc → build rpc.url = .ok ()) →
        ∃ modules', extendRpcModules lib build defaultUrl flags modules =
            .ok (modules', flags.readPrecompileRpc defaultUrl) ∧
          Rel (fun stock methods =>
            (∀ name ≠ "eth_getProof",
              lib.get methods name = overlay flags.extensions (lib.get stock) name) ∧
            lib.get methods "eth_getProof" =
              (if flags.experimentalEthGetProof then lib.get stock "eth_getProof" else none) ∧
            lib.get methods "eth_sendRawTransaction" = some (.extension .ethForwarder) ∧
            lib.get methods "eth_subscribe" =
              some (.extension (if flags.installed.isSome then .filterWs else .subscribeFixup)) ∧
            (∀ name ∈ ["eth_sendTransaction", "eth_sendRawTransactionSync"],
              lib.get methods name = lib.get stock name) ∧
            (lib.get stock "eth_sendRawTransactionSync" = some .stock →
              ∀ {R : Type} (sync : StockSync R) (upstream : UpstreamNode R) (fuel : ℕ) (tx : Bytes),
                SubmitsFirst sync →
                (lib.get methods "eth_sendRawTransactionSync").map
                    (·.sendRawTransactionSync sync upstream fuel tx) =
                  some ([], .error (.panic "internal error: entered unreachable code"))))
          modules modules')) := by
  refine ⟨fun e => extendRpcModules_of_upstream, fun hbuild => ⟨fun rpc e hrpc hclient =>
    extendRpcModules_of_readPrecompileRpc hlib hnew hbuild hrpc hclient, fun hclient => ?_⟩⟩
  obtain ⟨modules', hextend, hinstalled⟩ := extendRpcModules_installed hlib hnew hbuild hclient
  refine ⟨modules', hextend, hinstalled.imp fun stock methods h => ?_⟩
  obtain ⟨hsubmit, hsubscribe, hnone⟩ := flags.declaring_eq
  -- Besides `eth_getProof`, no method is removed.
  have hother (name : String) (hname : name ≠ "eth_getProof") :
      without flags.removed (lib.get stock) name = lib.get stock name := by
    rw [without, RpcFlags.removed]
    cases flags.experimentalEthGetProof with
    | true => exact if_neg List.not_mem_nil
    | false => exact if_neg fun hmem => hname (List.mem_singleton.1 hmem)
  have hget (name : String) : lib.get methods name = ((flags.declaring name).map .extension).or
      (without flags.removed (lib.get stock) name) := h.2 name
  -- No extension declares these methods, so they are the stock ones.
  have hkept : ∀ name ∈ ["eth_sendTransaction", "eth_sendRawTransactionSync"],
      lib.get methods name = lib.get stock name := by
    intro name hname
    have hne : name ≠ "eth_getProof" := by
      rintro rfl
      revert hname
      decide
    rw [hget, hnone name (by simp at hname ⊢; tauto), hother name hne]
    rfl
  refine ⟨fun name hname => ?_, ?_, ?_, ?_, hkept,
    fun hstock R sync upstream fuel tx hsync => ?_⟩
  · rw [h.2 name, overlay, overlay, hother name hname]
  · rw [hget, hnone _ (by decide), without, RpcFlags.removed]
    cases flags.experimentalEthGetProof <;> rfl
  · rw [hget, hsubmit]
    rfl
  · rw [hget, hsubscribe]
    rfl
  · rw [hkept _ (by decide), hstock, Option.map_some, RpcHandler.sendRawTransactionSync,
      hsync _ _ _ rfl]

/-- Handlers of methods by their names. -/
abbrev Handlers := String → Option RpcHandler

/-- The handlers with those of an extension. -/
def Handlers.declare (extension : RpcExtension) (methods : Handlers) : Handlers := fun name =>
  if name ∈ extension.methods then some (.extension extension) else methods name

/-- The same operation on each transport. -/
def TransportRpcModules.map (f : M → M) (modules : TransportRpcModules M) : TransportRpcModules M :=
  ⟨modules.http.map f, modules.ws.map f, modules.ipc.map f⟩

theorem TransportRpcModules.rel_map {r : M → M → Prop} {f : M → M} (hf : ∀ x, r x (f x))
    (modules : TransportRpcModules M) : Rel r modules (modules.map f) := by
  have hrel (a : Option M) : Option.Rel r a (a.map f) := by
    cases a with
    | none => exact .none
    | some x => exact .some (hf x)
  exact ⟨hrel modules.http, hrel modules.ws, hrel modules.ipc⟩

/-- A library that never fails. -/
def handlerLibrary : RpcLibrary Handlers where
  get methods := methods
  newModule _ := none
  merge methods other := (fun name => (methods name).or (other name), .ok ())
  replaceConfigured modules extension := .ok (modules.map (.declare extension))
  mergeConfigured modules extension := .ok (modules.map (.declare extension))
  removeMethodFromConfigured modules name :=
    modules.map fun methods name' => if name' = name then none else methods name'

/-- This library registers methods as the hook expects. -/
theorem registers_handlerLibrary : handlerLibrary.Registers where
  replaceConfigured modules _ := ⟨_, rfl, modules.rel_map fun _ _ => rfl⟩
  mergeConfigured modules _ _ := ⟨_, rfl, modules.rel_map fun _ _ => rfl⟩
  removeMethodFromConfigured modules _ := modules.rel_map fun _ _ => rfl
  merge_newModule _ := rfl
  merge_self methods := by
    funext name
    exact Option.or_self

/-- Calls are forwarded, and read precompile calls to another node. -/
def forwardingFlags : RpcFlags where
  hlNodeCompliant := false
  hlNodeCompliantMultiplexed := true
  upstreamRpcUrl := none
  forwardCall := true
  forwardReadPrecompiles := true
  readPrecompileRpcUrl := some "http://localhost:3001/evm"
  readPrecompileRpcRateLimit := none
  experimentalEthGetProof := false
  enableSyncServer := true

/-- The handlers of reth. -/
def stockHandlers : Handlers := fun name =>
  if name ∈ ["eth_call", "eth_getProof", "eth_sendRawTransactionSync"] then some .stock else none

/-- The servers over HTTP and WS. -/
def stockModules : TransportRpcModules Handlers := ⟨some stockHandlers, some stockHandlers, none⟩

/-- Calls are forwarded, proofs are not served, and the synchronous method is that of reth. -/
theorem rpcMethods_spec_forwarding : ∃ modules' methods,
    extendRpcModules handlerLibrary (fun _ => .ok ()) "https://rpc.hyperliquid.xyz/evm"
        forwardingFlags stockModules =
      .ok (modules', some ⟨"http://localhost:3001/evm", none⟩) ∧
    modules'.ws = some methods ∧ methods "eth_call" = some (.extension .callForwarder) ∧
    methods "eth_getProof" = none ∧ methods "eth_sendRawTransactionSync" = some .stock := by
  have hspec := rpcMethods_spec registers_handlerLibrary (fun _ => .ok ())
    "https://rpc.hyperliquid.xyz/evm" forwardingFlags stockModules (by
      simp only [RpcLibrary.AddsNew]
      decide)
  obtain ⟨⟨http, ws, ipc⟩, hextend, hrel⟩ := (hspec.2 rfl).2 fun _ _ => rfl
  have hws := hrel.ws
  rw [stockModules] at hws
  cases hws with
  | some h =>
    refine ⟨_, _, hextend, rfl, (h.1 _ (by decide)).trans ?_, h.2.1,
      (h.2.2.2.2.1 _ (by decide)).trans ?_⟩
    · decide
    · rfl

/-! ## Restart -/

/-- Where the servers of reth listen. -/
structure RpcServerHandle where
  httpLocalAddr : Option String
  wsLocalAddr : Option String
  ipcEndpoint : Option String

/-- A server with the layer that reads the query. It may be for one of the two transports only. -/
structure HlServer (M : Type) where
  addr : String
  methods : M
  httpOnly : Option Bool
  hlDefault : Bool
  jwtSecret : Option Bytes

/-- Whether requests over HTTP are answered. -/
def HlServer.acceptsHttp (server : HlServer M) : Bool := server.httpOnly != some false

/-- Whether connections of WS are answered. -/
def HlServer.acceptsWs (server : HlServer M) : Bool := server.httpOnly != some true

/-- The servers after the restart. -/
structure RestartedServers (M : Type) where
  servers : List (HlServer M)
  ipc : Option (String × M)

/-- What the servers of the libraries say when they are started: at an address and an attempt, and
    at an endpoint of IPC. -/
structure ServerBuilder where
  buildHttp : String → ℕ → Except String Unit
  startIpc : String → Except String Unit

/-- The attempts to start a server, after an error. -/
def startAttempts (build : ℕ → Except String Unit) (addr : String) :
    List ℕ → String → Except Halt Unit
  -- Only the last error is reported.
  | [], lastErr =>
    .error (.panic s!"failed to restart RPC server on {addr} after 10 attempts: {lastErr}")
  | attempt :: attempts, _ =>
    match build attempt with
    | .ok () => .ok ()
    | .error e => startAttempts build addr attempts e

/-- Starts a server, in ten attempts at most. -/
def startHttpServer (builder : ServerBuilder) (server : HlServer M) : Except Halt (HlServer M) := do
  startAttempts (builder.buildHttp server.addr) server.addr (List.range 10) ""
  return server

section Restart

variable (lib : RpcLibrary M) (builder : ServerBuilder)

/-- A new module with the methods, which are those of one. -/
def moduleOf (methods : M) : Except Halt M :=
  match lib.merge lib.newModule methods with
  | (module, .ok ()) => .ok module
  | (_, .error e) => .error (.panic s!"no conflicts: {e.debug}")

/-- The module of a server for both transports. If the methods of WS cannot be merged, this is
    ignored. -/
def combinedModule (captured : TransportRpcModules M) : Except Halt M := do
  let module ← match captured.http with
    | some methods => moduleOf lib methods
    | none => .ok lib.newModule
  match captured.ws with
  | some methods => return (lib.merge module methods).1
  | none => return module

/-- The server of a transport, if it had one. -/
def separateServer (httpOnly hlDefault : Bool) (jwtSecret : Option Bytes) :
    Option String → Option M → Except Halt (List (HlServer M))
  | some addr, some methods => do
    let module ← moduleOf lib methods
    return [⟨addr, module, some httpOnly, hlDefault, jwtSecret⟩]
  | _, _ => .ok []

/-- The address that both transports are served at, if there is one. -/
def RpcServerHandle.samePort (handle : RpcServerHandle) : Option String :=
  match handle.httpLocalAddr, handle.wsLocalAddr with
  | some httpAddr, some wsAddr => if httpAddr = wsAddr then some httpAddr else none
  | _, _ => none

/-- The servers for HTTP and WS that are to be started. -/
def httpWsServers (handle : RpcServerHandle) (jwtSecret : Option Bytes)
    (captured : TransportRpcModules M) (hlDefault : Bool) : Except Halt (List (HlServer M)) :=
  match handle.samePort with
  | some addr => do
    let module ← combinedModule lib captured
    return [⟨addr, module, none, hlDefault, jwtSecret⟩]
  | none => do
    let http ← separateServer lib true hlDefault jwtSecret handle.httpLocalAddr captured.http
    let ws ← separateServer lib false hlDefault jwtSecret handle.wsLocalAddr captured.ws
    return http ++ ws

/-- The server of IPC, for which there is one attempt. -/
def ipcServer : Option String → Option M → Except Halt (Option (String × M))
  | some path, some methods => do
    let module ← moduleOf lib methods
    (builder.startIpc path).mapError fun e => .panic s!"failed to restart IPC server: {e}"
    return some (path, module)
  | _, _ => .ok none

/-- Starts the servers again, with the methods that were captured. -/
def restartServers (handle : RpcServerHandle) (jwtSecret : Option Bytes)
    (captured : TransportRpcModules M) (hlDefault : Bool) : Except Halt (RestartedServers M) := do
  let servers ← httpWsServers lib handle jwtSecret captured hlDefault
  let servers ← servers.mapM (startHttpServer builder)
  let ipc ← ipcServer lib builder handle.ipcEndpoint captured.ipc
  return ⟨servers, ipc⟩

end Restart

/-- What is served where, on a transport. -/
def onTransport (addr : Option String) (methods : Option M) : Option (String × M) :=
  addr.bind fun addr => methods.map (addr, ·)

/-- What is served on a transport, is served where it listens. -/
theorem mem_of_onTransport {addr : Option String} {methods : Option M} {served : String × M}
    (h : served ∈ (onTransport addr methods).toList) : served.1 ∈ addr.toList := by
  cases addr with
  | none => cases h
  | some addr =>
    cases methods with
    | none => cases h
    | some methods =>
      rw [List.mem_singleton.1 h]
      exact List.mem_cons_self

section Restarted

variable {lib : RpcLibrary M} {builder : ServerBuilder}

/-- The attempts succeed if one of them does. -/
theorem startAttempts_eq_ok {build : ℕ → Except String Unit} {addr : String} {attempts : List ℕ}
    (h : ∃ attempt ∈ attempts, build attempt = .ok ()) (lastErr : String) :
    startAttempts build addr attempts lastErr = .ok () := by
  induction attempts generalizing lastErr with
  | nil =>
    obtain ⟨_, hmem, -⟩ := h
    cases hmem
  | cons attempt attempts ih =>
    rw [startAttempts]
    cases hattempt : build attempt with
    | ok => rfl
    | error e =>
      refine ih ?_ e
      obtain ⟨attempt', hmem, hok⟩ := h
      rcases List.mem_cons.1 hmem with rfl | hmem
      · cases hattempt.symm.trans hok
      · exact ⟨attempt', hmem, hok⟩

/-- The servers start if an attempt of each succeeds. -/
theorem mapM_startHttpServer {servers : List (HlServer M)}
    (hbuild : ∀ server ∈ servers, ∃ attempt < 10, builder.buildHttp server.addr attempt = .ok ()) :
    servers.mapM (startHttpServer builder) = .ok servers := by
  induction servers with
  | nil => rfl
  | cons server servers ih =>
    rw [List.forall_mem_cons] at hbuild
    obtain ⟨attempt, hlt, hattempt⟩ := hbuild.1
    rw [List.mapM_cons, ih hbuild.2, startHttpServer,
      startAttempts_eq_ok ⟨attempt, List.mem_range.2 hlt, hattempt⟩]
    rfl

/-- Where the servers for HTTP and WS listen. -/
def RpcServerHandle.addrs (handle : RpcServerHandle) : List String :=
  handle.httpLocalAddr.toList ++ handle.wsLocalAddr.toList

/-- A port is the same if both addresses are. -/
theorem RpcServerHandle.samePort_eq_some {handle : RpcServerHandle} {addr : String}
    (h : handle.samePort = some addr) :
    handle.httpLocalAddr = some addr ∧ handle.wsLocalAddr = some addr := by
  unfold samePort at h
  split at h
  · next httpAddr wsAddr hhttpAddr hwsAddr =>
    obtain ⟨rfl, heq⟩ := Option.ite_none_right_eq_some.1 h
    cases heq
    exact ⟨hhttpAddr, hwsAddr⟩
  · cases h

/-- What the servers serve on a transport. -/
def servedBy (servers : List (HlServer M)) (accepts : HlServer M → Bool) : List (String × M) :=
  (servers.filter accepts).map fun server => (server.addr, server.methods)

variable (hlib : lib.Registers)
include hlib

theorem moduleOf_eq (methods : M) : moduleOf lib methods = .ok methods := by
  rw [moduleOf, hlib.merge_newModule]

/-- On the same port, the methods are those of both transports. -/
theorem combinedModule_eq {captured : TransportRpcModules M} {methods : M}
    (hhttp : captured.http = some methods) (hws : captured.ws = some methods) :
    combinedModule lib captured = .ok methods := by
  rw [combinedModule, hhttp, hws]
  change (moduleOf lib methods >>= fun module => _) = _
  rw [moduleOf_eq hlib]
  exact congrArg Except.ok (hlib.merge_self methods)

/-- A separate server has the methods of its transport. -/
theorem separateServer_eq (httpOnly hlDefault : Bool) (jwtSecret : Option Bytes)
    (addr : Option String) (methods : Option M) :
    separateServer lib httpOnly hlDefault jwtSecret addr methods =
      .ok ((onTransport addr methods).toList.map fun served =>
        ⟨served.1, served.2, some httpOnly, hlDefault, jwtSecret⟩) := by
  cases addr with
  | none => rfl
  | some addr =>
    cases methods with
    | none => rfl
    | some methods =>
      rw [separateServer, moduleOf_eq hlib]
      rfl

/-- The server of the socket has the methods of its transport, if it starts. -/
theorem ipcServer_eq {path : Option String} (methods : Option M)
    (hstart : ∀ endpoint ∈ path, builder.startIpc endpoint = .ok ()) :
    ipcServer lib builder path methods = .ok (onTransport path methods) := by
  cases path with
  | none => rfl
  | some path =>
    cases methods with
    | none => rfl
    | some methods =>
      rw [ipcServer, moduleOf_eq hlib, hstart path rfl]
      rfl

/-- Every transport is served at its address with its methods. -/
theorem httpWsServers_spec {handle : RpcServerHandle} {jwtSecret : Option Bytes}
    {captured : TransportRpcModules M} {hlDefault : Bool}
    (hsame : ∀ addr, handle.samePort = some addr →
      ∃ methods, captured.http = some methods ∧ captured.ws = some methods) :
    ∃ servers, httpWsServers lib handle jwtSecret captured hlDefault = .ok servers ∧
      servedBy servers (·.acceptsHttp) = (onTransport handle.httpLocalAddr captured.http).toList ∧
      servedBy servers (·.acceptsWs) = (onTransport handle.wsLocalAddr captured.ws).toList ∧
      ∀ server ∈ servers, server.addr ∈ handle.addrs ∧ server.hlDefault = hlDefault ∧
        server.jwtSecret = jwtSecret := by
  cases hport : handle.samePort with
  -- On the same port, one server has the methods of both transports.
  | some addr =>
    obtain ⟨methods, hhttp, hws⟩ := hsame addr hport
    have haddr := RpcServerHandle.samePort_eq_some hport
    refine ⟨[⟨addr, methods, none, hlDefault, jwtSecret⟩], ?_, ?_, ?_, ?_⟩
    · rw [httpWsServers, hport]
      exact except_bind_eq_ok.2 ⟨_, combinedModule_eq hlib hhttp hws, rfl⟩
    · rw [haddr.1, hhttp]
      rfl
    · rw [haddr.2, hws]
      rfl
    · intro server hserver
      rw [List.mem_singleton.1 hserver, RpcServerHandle.addrs, haddr.1]
      exact ⟨List.mem_cons_self, rfl, rfl⟩
  -- On different ports, there is a server per transport that is configured.
  | none =>
    have hhttp := separateServer_eq hlib true hlDefault jwtSecret handle.httpLocalAddr captured.http
    have hws := separateServer_eq hlib false hlDefault jwtSecret handle.wsLocalAddr captured.ws
    refine ⟨(onTransport handle.httpLocalAddr captured.http).toList.map
        (fun served => ⟨served.1, served.2, some true, hlDefault, jwtSecret⟩) ++
      (onTransport handle.wsLocalAddr captured.ws).toList.map
        (fun served => ⟨served.1, served.2, some false, hlDefault, jwtSecret⟩), ?_, ?_, ?_, ?_⟩
    · rw [httpWsServers, hport]
      exact except_bind_eq_ok.2 ⟨_, hhttp, except_bind_eq_ok.2 ⟨_, hws, rfl⟩⟩
    · cases onTransport handle.httpLocalAddr captured.http <;>
        cases onTransport handle.wsLocalAddr captured.ws <;> rfl
    · cases onTransport handle.httpLocalAddr captured.http <;>
        cases onTransport handle.wsLocalAddr captured.ws <;> rfl
    · intro server hserver
      rw [RpcServerHandle.addrs, List.mem_append]
      rcases List.mem_append.1 hserver with hserver | hserver
      · obtain ⟨served, hserved, rfl⟩ := List.mem_map.1 hserver
        exact ⟨.inl (mem_of_onTransport hserved), rfl, rfl⟩
      · obtain ⟨served, hserved, rfl⟩ := List.mem_map.1 hserver
        exact ⟨.inr (mem_of_onTransport hserved), rfl, rfl⟩

end Restarted

/-- **Restart**: if each address can be bound again within the attempts, and the endpoint of IPC at
    the first one, each transport is served where it was, with the methods captured from it and the
    layers of the restart. -/
theorem restartServers_spec {lib : RpcLibrary M} (hlib : lib.Registers) {builder : ServerBuilder}
    {handle : RpcServerHandle} {jwtSecret : Option Bytes} {captured : TransportRpcModules M}
    {hlDefault : Bool}
    (hbuild : ∀ addr ∈ handle.addrs, ∃ attempt < 10, builder.buildHttp addr attempt = .ok ())
    (hipc : ∀ path ∈ handle.ipcEndpoint, builder.startIpc path = .ok ())
    (hsame : ∀ addr, handle.samePort = some addr →
      ∃ methods, captured.http = some methods ∧ captured.ws = some methods) :
    ∃ restarted, restartServers lib builder handle jwtSecret captured hlDefault = .ok restarted ∧
      servedBy restarted.servers (·.acceptsHttp) =
        (onTransport handle.httpLocalAddr captured.http).toList ∧
      servedBy restarted.servers (·.acceptsWs) =
        (onTransport handle.wsLocalAddr captured.ws).toList ∧
      restarted.ipc = onTransport handle.ipcEndpoint captured.ipc ∧
      ∀ server ∈ restarted.servers,
        server.hlDefault = hlDefault ∧ server.jwtSecret = jwtSecret := by
  obtain ⟨servers, hservers, hhttp, hws, hlayers⟩ := httpWsServers_spec hlib hsame
  have hstart := mapM_startHttpServer fun server hserver => hbuild _ (hlayers server hserver).1
  exact ⟨⟨servers, _⟩, except_bind_eq_ok.2 ⟨_, hservers, except_bind_eq_ok.2
    ⟨_, hstart, except_bind_eq_ok.2 ⟨_, ipcServer_eq hlib captured.ipc hipc, rfl⟩⟩⟩, hhttp, hws,
    rfl, fun server hserver => (hlayers server hserver).2⟩

/-- Addresses are free at the third attempt. -/
def thirdBuilder : ServerBuilder where
  buildHttp _ attempt := if attempt < 2 then .error "address in use" else .ok ()
  startIpc _ := .ok ()

/-- Both transports are served at the same port, and IPC at its endpoint. -/
theorem restartServers_spec_samePort : ∃ restarted,
    restartServers handlerLibrary thirdBuilder ⟨some "8545", some "8545", some "reth.ipc"⟩ none
      ⟨some stockHandlers, some stockHandlers, some stockHandlers⟩ false = .ok restarted ∧
    servedBy restarted.servers (·.acceptsWs) = [("8545", stockHandlers)] ∧
    restarted.ipc = some ("reth.ipc", stockHandlers) := by
  obtain ⟨restarted, hrestart, -, hws, hipc, -⟩ := @restartServers_spec _ handlerLibrary
    registers_handlerLibrary thirdBuilder ⟨some "8545", some "8545", some "reth.ipc"⟩ none
    ⟨some stockHandlers, some stockHandlers, some stockHandlers⟩ false
    (fun _ _ => ⟨2, by decide, rfl⟩) (fun _ _ => rfl) fun _ _ => ⟨_, rfl, rfl⟩
  exact ⟨restarted, hrestart, hws, hipc⟩

end Nanoreth
