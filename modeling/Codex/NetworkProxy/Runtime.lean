import Codex.NetworkProxy.State

/-!
# The running proxy state

`network-proxy/src/runtime.rs`: the shared `ConfigState` behind its lock, and the calls that change
it. A step of the model is what one call does while it holds the lock once. Between the read and the
write a call keeps what it read in its `Task`; a call whose recheck fails starts again, so here its
task is dropped and may be read anew. Every call reloads first if the reloader has a new state:
that is a `Task.reload` of its own.

Observers, logging and the MITM state are left out.
-/

namespace Codex.NetworkProxy

open Codex.Lib

deriving instance DecidableEq for NetworkProxyConstraints
deriving instance DecidableEq for NetworkProxySettings

def maxBlockedEvents : ℕ := 200

/-- `NetworkProxyConfig`; `network` holds what validation reads of the settings, the other
fields the rest of them -/
structure NetworkProxyConfig (Hook : Type) where
  network : NetworkProxySettings Hook
  proxyUrl : Text
  enableSocks5 : Bool
  socksUrl : Text
  enableSocks5Udp : Bool
  credentialBroker : Bool
  dangerouslyAllowPlaintextCredentialInjection : Bool
  deriving DecidableEq

/-- The parts of building a state that are checked elsewhere: the glob builder, the paths of unix
sockets, the compiler of MITM hooks and the MITM certificate authority. -/
structure RuntimeEnv (Hook : Type) extends ProxyEnv Hook where
  globBuilds : Text → Bool
  unixSocketPathParses : Text → Bool
  mitmHooksCompile : NetworkProxySettings Hook → Bool
  mitmStateBuilds : Bool → Bool → Bool

/-- `ConfigState`; `Entry` is `BlockedRequest` -/
structure ConfigState (Hook Entry : Type) where
  config : NetworkProxyConfig Hook
  allowSet : List Text
  denySet : List Text
  constraints : NetworkProxyConstraints
  blocked : List Entry
  blockedTotal : ℕ

variable {Hook Entry : Type}

/-! ### Building a state -/

/-- `compile_globset_with_policy`; the set is the list of its globs -/
def compileGlobsetWithPolicy (env : RuntimeEnv Hook) (rejectGlobalWildcard : Bool)
    (patterns : List Text) : Option (List Text) :=
  if rejectGlobalWildcard && patterns.any isGlobalWildcardDomainPattern then none
  else if (compileAllowlistGlobset patterns).all env.globBuilds then
    some (compileAllowlistGlobset patterns)
  else none

/-- `build_config_state`; which check failed is left out -/
def buildConfigState (env : RuntimeEnv Hook) (config : NetworkProxyConfig Hook)
    (constraints : NetworkProxyConstraints) : Option (ConfigState Hook Entry) :=
  let network := config.network
  if !network.allowUnixSockets.all env.unixSocketPathParses then none
  else if config.credentialBroker && !network.mitm then none
  else if (network.deniedDomains.getD []).any isGlobalWildcardDomainPattern then none
  else
    (compileGlobsetWithPolicy env true (network.deniedDomains.getD [])).bind fun denySet =>
      (compileGlobsetWithPolicy env false (network.allowedDomains.getD [])).bind fun allowSet =>
        if !env.mitmHooksCompile network then none
        else if network.mitm &&
            !env.mitmStateBuilds network.allowUpstreamProxy network.allowLocalBinding then none
        else some ⟨config, allowSet, denySet, constraints, [], 0⟩

/-! ### Domain lists -/

inductive DomainListKind where
  | allow
  | deny
  deriving DecidableEq

namespace DomainListKind

def permission : DomainListKind → NetworkDomainPermission
  | .allow => .allow
  | .deny => .deny

/-- The other list. -/
def opposite : DomainListKind → DomainListKind
  | .allow => .deny
  | .deny => .allow

/-- `DomainListKind::entries`; `opposite_entries` are the entries of the opposite list -/
def entries (kind : DomainListKind) (network : NetworkProxySettings Hook) : List Text :=
  (network.domainEntries kind.permission).getD []

end DomainListKind

/-- `Host::parse` -/
def hostParse (host : Text) : Option Text :=
  if normalizeHost host = [] then none else some (normalizeHost host)

/-- `NetworkProxySettings::upsert_domain_permission`, with `normalize_host` -/
def upsertDomainPermission (network : NetworkProxySettings Hook) (host : Text)
    (permission : NetworkDomainPermission) : NetworkProxySettings Hook :=
  let entries := (network.domains.getD []).filter fun entry =>
    normalizeHost entry.pattern != normalizeHost host
  { network with domains := some (entries ++ [⟨host, permission⟩]) }

/-- The test of `update_domain_list` for a host that is on the list already -/
def listed (kind : DomainListKind) (network : NetworkProxySettings Hook) (host : Text) : Bool :=
  (kind.entries network).any (fun entry => normalizeHost entry == host) &&
    !(kind.opposite.entries network).any (fun entry => normalizeHost entry == host)

variable (config : NetworkProxyConfig Hook)

/-- The configuration with the host on the list. -/
def withDomain (kind : DomainListKind) (host : Text) : NetworkProxyConfig Hook :=
  { config with network := upsertDomainPermission config.network host kind.permission }

/-- The configuration with the mode. -/
def withMode (mode : NetworkMode) : NetworkProxyConfig Hook :=
  { config with network := { config.network with mode := mode } }

/-! ### Calls -/

/-- A call between the lock it took to read and the lock it takes to write. -/
inductive Task (Hook Entry : Type) where
  /-- `reload_if_needed`, with the state to write -/
  | reload (newState : ConfigState Hook Entry)
  /-- `set_network_mode` -/
  | setMode (mode : NetworkMode) (constraints : NetworkProxyConstraints)
  /-- `update_domain_list`, with the configuration read and the state to write -/
  | updateDomain (kind : DomainListKind) (host : Text) (previous : NetworkProxyConfig Hook)
      (newState : ConfigState Hook Entry)

/-- A call that has returned successfully, or a state that was reloaded or replaced. -/
inductive Completed where
  | replaced
  | mode (mode : NetworkMode)
  | domain (kind : DomainListKind) (host : Text)
  deriving DecidableEq

/-- The shared state, the calls in progress and, to speak about them, the calls completed since the
start, the latest last. -/
structure Proxy (Hook Entry : Type) where
  credentialBrokerEnabled : Bool
  state : ConfigState Hook Entry
  tasks : List (Task Hook Entry)
  completed : List Completed

/-- What one call does under one lock. -/
inductive Action (Hook Entry : Type) where
  /-- the read of `reload_if_needed`, when the reloader has a new state -/
  | reloadRead (newState : ConfigState Hook Entry)
  /-- the write of `force_reload` with the state of the reloader; what it reads first is logged -/
  | forceReload (newState : ConfigState Hook Entry)
  | replaceConfigState (newState : ConfigState Hook Entry)
  | recordBlocked (entry : Entry)
  | drainBlocked
  | modeRead (mode : NetworkMode)
  | domainRead (kind : DomainListKind) (host : Text)
  /-- the write of the call at the place given -/
  | write (i : ℕ)

/-- The locked part of `record_blocked` -/
def recordBlocked (state : ConfigState Hook Entry) (entry : Entry) : ConfigState Hook Entry :=
  let blocked := state.blocked ++ [entry]
  { state with
    blocked := blocked.drop (blocked.length - maxBlockedEvents)
    blockedTotal := min (state.blockedTotal + 1) (2 ^ 64 - 1) }

variable (env : RuntimeEnv Hook) (proxy : Proxy Hook Entry)

/-- The read of `update_domain_list` and what follows it up to the write; the call may
return at once, with success or with an error -/
def domainRead [DecidableEq Hook] (kind : DomainListKind) (host : Text) : Proxy Hook Entry :=
  match hostParse host with
  | none => proxy
  | some host =>
    let state := proxy.state
    if listed kind state.config.network host then
      { proxy with completed := proxy.completed ++ [.domain kind host] }
    else
      let candidate := withDomain state.config kind host
      match validatePolicyAgainstConstraints env.toProxyEnv candidate.network state.constraints with
      | .error _ => proxy
      | .ok () =>
        match (buildConfigState env candidate state.constraints :
          Option (ConfigState Hook Entry)) with
        | none => proxy
        | some newState =>
          let newState := { newState with
            blocked := state.blocked
            blockedTotal := state.blockedTotal }
          { proxy with
            tasks := proxy.tasks ++ [Task.updateDomain kind host state.config newState] }

/-- The read of `set_network_mode` and the validation after it -/
def modeRead (mode : NetworkMode) : Proxy Hook Entry :=
  let candidate := withMode proxy.state.config mode
  match validatePolicyAgainstConstraints env.toProxyEnv candidate.network
      proxy.state.constraints with
  | .error _ => proxy
  | .ok () => { proxy with tasks := proxy.tasks ++ [.setMode mode proxy.state.constraints] }

variable (proxy : Proxy Hook Entry)

/-- The locked writes of `reload_if_needed`, `set_network_mode` and `update_domain_list` -/
def writeTask [DecidableEq Hook] : Task Hook Entry → Proxy Hook Entry
  | .reload newState =>
    { proxy with state := newState, completed := proxy.completed ++ [.replaced] }
  | .setMode mode constraints =>
    if proxy.state.constraints ≠ constraints then proxy
    else
      { proxy with
        state := { proxy.state with config := withMode proxy.state.config mode }
        completed := proxy.completed ++ [.mode mode] }
  | .updateDomain kind host previous newState =>
    if proxy.state.constraints ≠ newState.constraints ∨ proxy.state.config ≠ previous then proxy
    else
      { proxy with state := newState, completed := proxy.completed ++ [.domain kind host] }

/-- `ensure_credential_broker_enablement_unchanged` -/
def brokerUnchanged (newState : ConfigState Hook Entry) : Bool :=
  proxy.credentialBrokerEnabled == newState.config.credentialBroker

/-- One step. -/
def step [DecidableEq Hook] (proxy : Proxy Hook Entry) :
    Action Hook Entry → Proxy Hook Entry
  | .reloadRead newState =>
    if brokerUnchanged proxy newState then
      let newState := { newState with
        blocked := proxy.state.blocked
        blockedTotal := proxy.state.blockedTotal }
      { proxy with tasks := proxy.tasks ++ [Task.reload newState] }
    else proxy
  | .forceReload newState =>
    if brokerUnchanged proxy newState then
      { proxy with
        state := { newState with blocked := proxy.state.blocked }
        completed := proxy.completed ++ [.replaced] }
    else proxy
  | .replaceConfigState newState =>
    if brokerUnchanged proxy newState then
      { proxy with
        state := { newState with
          blocked := proxy.state.blocked
          blockedTotal := proxy.state.blockedTotal }
        completed := proxy.completed ++ [.replaced] }
    else proxy
  | .recordBlocked entry => { proxy with state := recordBlocked proxy.state entry }
  | .drainBlocked => { proxy with state := { proxy.state with blocked := [] } }
  | .modeRead mode => modeRead env proxy mode
  | .domainRead kind host => domainRead env proxy kind host
  | .write i =>
    match proxy.tasks[i]? with
    | none => proxy
    | some task => writeTask { proxy with tasks := proxy.tasks.eraseIdx i } task

variable (state : ConfigState Hook Entry)

/-- `NetworkProxyState::with_reloader` -/
def Proxy.start : Proxy Hook Entry :=
  ⟨state.config.credentialBroker, state, [], []⟩

/-- The proxy after a run. -/
def run [DecidableEq Hook] (actions : List (Action Hook Entry)) : Proxy Hook Entry :=
  actions.foldl (step env) (.start state)

/-! ### A proxy for fixed runs -/

/-- Everything compiles. -/
def plainEnv : RuntimeEnv Unit where
  toProxyEnv := hostNames
  globBuilds _ := true
  unixSocketPathParses _ := true
  mitmHooksCompile _ := true
  mitmStateBuilds _ _ := true

/-- The default settings, in full mode, with the domain entries given. -/
def plainConfig (domains : Option (List NetworkDomainPermissionEntry)) :
    NetworkProxyConfig Unit where
  network :=
    { enabled := false, allowUpstreamProxy := true, dangerouslyAllowNonLoopbackProxy := false
      dangerouslyAllowAllUnixSockets := false, mode := .full, domains := domains
      unixSockets := none, allowLocalBinding := false, mitm := false, mitmHooks := [] }
  proxyUrl := "http://127.0.0.1:3128".toList
  enableSocks5 := true
  socksUrl := "http://127.0.0.1:8081".toList
  enableSocks5Udp := true
  credentialBroker := false
  dangerouslyAllowPlaintextCredentialInjection := false

/-- No constraints. -/
def unconstrained : NetworkProxyConstraints :=
  ⟨none, none, none, none, none, none, none, none, none, none, none⟩

/-- The state built from the default settings. -/
def plainState : ConfigState Unit ℕ := ⟨plainConfig none, [], [], unconstrained, [], 0⟩

end Codex.NetworkProxy
