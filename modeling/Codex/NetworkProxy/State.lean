import Codex.NetworkProxy.Policy
import Codex.Lib.Result

/-!
# Managed constraints of the proxy

`network-proxy/src/state.rs`: `validate_policy_against_constraints` compares a configuration with
the managed constraints. The managed allow list is compared pattern by pattern, in the reading of
the `url` crate; what the proxy lets through afterwards is decided by the globs.

* `allowlistSound_iff`: exactly when an accepted allow list stays within the managed one.
-/

namespace Codex.NetworkProxy

open Codex.Lib

/-! ### Configurations -/

inductive NetworkDomainPermission where
  | none
  | allow
  | deny
  deriving DecidableEq

/-- The place in the derived order. -/
def NetworkDomainPermission.rank : NetworkDomainPermission → ℕ
  | .none => 0
  | .allow => 1
  | .deny => 2

structure NetworkDomainPermissionEntry where
  pattern : Text
  permission : NetworkDomainPermission
  deriving DecidableEq

/-- The body of the loop of `effective_entries` -/
def upsertPermission (effective : List NetworkDomainPermissionEntry)
    (entry : NetworkDomainPermissionEntry) : List NetworkDomainPermissionEntry :=
  if effective.any fun other => other.pattern = entry.pattern then
    effective.map fun other =>
      if other.pattern = entry.pattern ∧ other.permission.rank < entry.permission.rank then entry
      else other
  else effective ++ [entry]

def effectiveEntries (entries : List NetworkDomainPermissionEntry) :
    List NetworkDomainPermissionEntry :=
  entries.foldl upsertPermission []

inductive NetworkUnixSocketPermission where
  | allow
  | deny
  deriving DecidableEq

inductive NetworkMode where
  | limited
  | full
  deriving DecidableEq

def networkModeRank : NetworkMode → ℕ
  | .limited => 0
  | .full => 1

/-- `NetworkProxySettings`, what the validation reads; `Hook` is `MitmHookConfig` -/
structure NetworkProxySettings (Hook : Type) where
  enabled : Bool
  allowUpstreamProxy : Bool
  dangerouslyAllowNonLoopbackProxy : Bool
  dangerouslyAllowAllUnixSockets : Bool
  mode : NetworkMode
  domains : Option (List NetworkDomainPermissionEntry)
  unixSockets : Option (List (Text × NetworkUnixSocketPermission))
  allowLocalBinding : Bool
  mitm : Bool
  mitmHooks : List Hook

namespace NetworkProxySettings

variable {Hook : Type} (network : NetworkProxySettings Hook)

def domainEntries (permission : NetworkDomainPermission) : Option (List Text) :=
  (network.domains.map fun domains =>
    ((effectiveEntries domains).filter (·.permission = permission)).map (·.pattern)).filter (· ≠ [])

def allowedDomains : Option (List Text) :=
  network.domainEntries .allow

def deniedDomains : Option (List Text) :=
  network.domainEntries .deny

def allowUnixSockets : List Text :=
  (network.unixSockets.map fun entries => (entries.filter (·.2 = .allow)).map (·.1)).getD []

end NetworkProxySettings

structure NetworkProxyConstraints where
  enabled : Option Bool
  mode : Option NetworkMode
  allowUpstreamProxy : Option Bool
  dangerouslyAllowNonLoopbackProxy : Option Bool
  dangerouslyAllowAllUnixSockets : Option Bool
  allowedDomains : Option (List Text)
  allowlistExpansionEnabled : Option Bool
  deniedDomains : Option (List Text)
  denylistExpansionEnabled : Option Bool
  allowUnixSockets : Option (List Text)
  allowLocalBinding : Option Bool

/-- `NetworkProxyConstraintError`; a text rendered from a list is the list -/
structure NetworkProxyConstraintError where
  fieldName : Text
  candidate : List Text
  allowed : List Text
  deriving DecidableEq

/-- The parser of the `url` crate, with the host written out again, and the loop of
`validate_mitm_hook_config` over the hooks. -/
structure ProxyEnv (Hook : Type) where
  urlHostParse : Text → Option Text
  validateHooks : List Hook → Except Text Unit

/-! ### Validation -/

def validateNonGlobalWildcardDomainPatterns (fieldName : Text) (patterns : List Text) :
    Except NetworkProxyConstraintError Unit :=
  match patterns.find? isGlobalWildcardDomainPattern with
  | some pattern =>
    .error ⟨fieldName, [trim pattern],
      ["exact hosts or scoped wildcards like *.example.com or **.example.com".toList]⟩
  | none => .ok ()

variable {Hook : Type}

/-- `validate_mitm_hook_config` and `invalid_mitm_hook_configuration` -/
def validateMitmHookConfig (env : ProxyEnv Hook) (network : NetworkProxySettings Hook) :
    Except NetworkProxyConstraintError Unit :=
  let invalid := fun message : Text =>
    (⟨"network.mitm_hooks".toList, [message], ["valid MITM hook configuration".toList]⟩ :
      NetworkProxyConstraintError)
  if network.mitmHooks.isEmpty then .ok ()
  else if !network.mitm then
    .error (invalid "network.mitm_hooks requires network.mitm = true".toList)
  else
    match env.validateHooks network.mitmHooks with
    | .error message => .error (invalid message)
    | .ok () => .ok ()

/-- The checks of the fields that the managed configuration may turn off -/
def validateSwitch (fieldName : Text) (candidate allowed : Bool) :
    Except NetworkProxyConstraintError Unit :=
  if candidate && !allowed then
    .error ⟨fieldName, ["true".toList], ["false (disabled by managed config)".toList]⟩
  else .ok ()

/-- The check of `network.mode` -/
def validateMode (candidate : NetworkMode) (maxMode : Option NetworkMode) :
    Except NetworkProxyConstraintError Unit :=
  match maxMode with
  | some maxMode =>
    if networkModeRank candidate > networkModeRank maxMode then
      .error ⟨"network.mode".toList, ["Full".toList], ["Limited or more restrictive".toList]⟩
    else .ok ()
  | none => .ok ()

/-- The set of the entries in lower case. -/
def lowerSet (entries : List Text) : List Text := entries.map (·.map Char.toLower)

/-- The check of `network.allowed_domains` -/
def validateAllowedDomains (urlHostParse : Text → Option Text)
    (constraints : NetworkProxyConstraints)
    (allowedDomains deniedDomains : List Text) : Except NetworkProxyConstraintError Unit :=
  match constraints.allowedDomains with
  | none => .ok ()
  | some managed => do
      validateNonGlobalWildcardDomainPatterns "network.allowed_domains".toList managed
      let invalid := fun candidate allowed =>
        (⟨"network.allowed_domains".toList, candidate, allowed⟩ : NetworkProxyConstraintError)
      match constraints.allowlistExpansionEnabled with
      | some true =>
        let missing := (lowerSet managed).filter fun entry =>
          entry ∉ lowerSet allowedDomains ∧ entry ∉ lowerSet deniedDomains
        if missing = [] then .ok ()
        else .error (invalid ["missing managed allowed_domains entries".toList] missing)
      | some false =>
        let expected := (lowerSet managed).filter fun entry => entry ∉ lowerSet deniedDomains
        if (lowerSet allowedDomains).all (· ∈ expected) &&
            expected.all (· ∈ lowerSet allowedDomains) then .ok ()
        else .error (invalid allowedDomains ["must match managed allowed_domains".toList])
      | none =>
        let managedPatterns := managed.map (DomainPattern.parseForConstraints urlHostParse)
        let invalidEntries := allowedDomains.filter fun entry =>
          !managedPatterns.any fun pattern =>
            pattern.allows (DomainPattern.parseForConstraints urlHostParse entry)
        if invalidEntries = [] then .ok ()
        else .error (invalid invalidEntries ["subset of managed allowed_domains".toList])

variable (constraints : NetworkProxyConstraints)

/-- The check of `network.denied_domains` -/
def validateDeniedDomains (deniedDomains : List Text) : Except NetworkProxyConstraintError Unit :=
  match constraints.deniedDomains with
  | none => .ok ()
  | some managed => do
      validateNonGlobalWildcardDomainPatterns "network.denied_domains".toList managed
      let required := lowerSet managed
      let candidate := lowerSet deniedDomains
      match constraints.denylistExpansionEnabled with
      | some false =>
        if candidate.all (· ∈ required) && required.all (· ∈ candidate) then .ok ()
        else
          .error ⟨"network.denied_domains".toList, deniedDomains,
            ["must match managed denied_domains".toList]⟩
      | _ =>
        let missing := required.filter (· ∉ candidate)
        if missing = [] then .ok ()
        else
          .error ⟨"network.denied_domains".toList,
            ["missing managed denied_domains entries".toList], missing⟩

/-- The check of `network.allow_unix_sockets` -/
def validateAllowUnixSockets (sockets : List Text) : Except NetworkProxyConstraintError Unit :=
  match constraints.allowUnixSockets with
  | none => .ok ()
  | some managed =>
    let invalidEntries := sockets.filter fun entry => entry.map Char.toLower ∉ lowerSet managed
    if invalidEntries = [] then .ok ()
    else
      .error ⟨"network.allow_unix_sockets".toList, invalidEntries,
        ["subset of managed allow_unix_sockets".toList]⟩

def validatePolicyAgainstConstraints (env : ProxyEnv Hook)
    (network : NetworkProxySettings Hook) (constraints : NetworkProxyConstraints) :
    Except NetworkProxyConstraintError Unit := do
  let allowedDomains := network.allowedDomains.getD []
  let deniedDomains := network.deniedDomains.getD []
  validateMitmHookConfig env network
  validateNonGlobalWildcardDomainPatterns "network.denied_domains".toList deniedDomains
  validateSwitch "network.enabled".toList network.enabled (constraints.enabled.getD true)
  validateMode network.mode constraints.mode
  validateSwitch "network.allow_upstream_proxy".toList network.allowUpstreamProxy
    (constraints.allowUpstreamProxy.getD true)
  validateSwitch "network.dangerously_allow_non_loopback_proxy".toList
    network.dangerouslyAllowNonLoopbackProxy
    (constraints.dangerouslyAllowNonLoopbackProxy.getD true)
  validateSwitch "network.dangerously_allow_all_unix_sockets".toList
    network.dangerouslyAllowAllUnixSockets
    (constraints.dangerouslyAllowAllUnixSockets.getD constraints.allowUnixSockets.isNone)
  validateSwitch "network.allow_local_binding".toList network.allowLocalBinding
    (constraints.allowLocalBinding.getD true)
  validateAllowedDomains env.urlHostParse constraints allowedDomains deniedDomains
  validateDeniedDomains constraints deniedDomains
  validateAllowUnixSockets constraints network.allowUnixSockets

/-! ### Lists that have to be equal -/

variable (host : Text)

lemma normalizeDns_map_toLower :
    normalizeDnsHostOrIpLiteral (host.map Char.toLower) = normalizeDnsHostOrIpLiteral host := by
  have hidem : (host.map Char.toLower).map Char.toLower = host.map Char.toLower :=
    (isLower_map_toLower host).map_toLower
  simp only [normalizeDnsHostOrIpLiteral]
  rw [hidem]

lemma bracketed_map_toLower :
    bracketed (host.map Char.toLower) = (bracketed host).map (List.map Char.toLower) := by
  cases host with
  | nil => rfl
  | cons c host =>
    by_cases hc : c = '['
    · subst hc
      have hsplit := splitOnce_map_toLower (m := [']']) (by decide) host
      show (splitOnce [']'] (host.map Char.toLower)).map (·.1) = _
      rw [hsplit]
      simp only [bracketed]
      cases splitOnce [']'] host <;> rfl
    · have hlow : c.toLower ≠ '[' := fun h => hc ((toLower_eq_iff (by decide)).mp h)
      rw [List.map_cons, bracketed.eq_def, bracketed.eq_def]
      simp [hc, hlow]

/-- The case of letters does not matter to the host. -/
theorem normalizeHost_map_toLower : normalizeHost (host.map Char.toLower) = normalizeHost host := by
  have hcolon : ∀ c : Char, c.toLower = ':' ↔ c = ':' := fun c => toLower_eq_iff (by decide)
  simp only [normalizeHost]
  rw [trim_map_toLower, bracketed_map_toLower]
  generalize trim host = host
  cases bracketed host with
  | some inside => exact normalizeDns_map_toLower inside
  | none =>
    have hcount : (host.map Char.toLower).count ':' = host.count ':' := by
      rw [List.count_eq_countP, List.count_eq_countP, List.countP_map]
      refine List.countP_congr fun c _ => ?_
      simp [hcolon]
    have htake : (host.map Char.toLower).takeWhile (· ≠ ':') =
        (host.takeWhile (· ≠ ':')).map Char.toLower := by
      rw [List.takeWhile_map]
      congr 2
      funext c
      simp [hcolon]
    simp only [Option.map_none]
    rw [hcount, htake, normalizeDns_map_toLower, normalizeDns_map_toLower]

lemma normalizePattern_map_toLower (pattern : Text) :
    normalizePattern (pattern.map Char.toLower) = normalizePattern pattern := by
  simp only [normalizePattern]
  rw [trim_map_toLower]
  generalize trim pattern = pattern
  have hstar : pattern.map Char.toLower = ['*'] ↔ pattern = ['*'] := by
    constructor
    · intro h
      obtain ⟨c, rfl⟩ := List.length_eq_one_iff.mp (by simpa using congrArg List.length h)
      rw [List.map_singleton, List.cons.injEq, toLower_eq_iff (by decide)] at h
      rw [h.1]
    · rintro rfl
      decide
  rw [stripPrefix_map_toLower (by decide +kernel), stripPrefix_map_toLower (by decide +kernel)]
  simp only [hstar]
  cases stripPrefix "**.".toList pattern with
  | some domain => simp only [Option.map_some, normalizeHost_map_toLower]
  | none =>
    cases stripPrefix "*.".toList pattern with
    | some domain => simp only [Option.map_none, Option.map_some, normalizeHost_map_toLower]
    | none => simp only [Option.map_none, normalizeHost_map_toLower]

/-! ### What acceptance says about the allow list -/

section accepted

variable {Hook : Type} {env : ProxyEnv Hook} {network : NetworkProxySettings Hook}
  {constraints : NetworkProxyConstraints} {urlHostParse : Text → Option Text}
  {managed allowed denied : List Text}

lemma validateAllowedDomains_of_ok
    (h : validatePolicyAgainstConstraints env network constraints = .ok ()) :
    validateAllowedDomains env.urlHostParse constraints (network.allowedDomains.getD [])
      (network.deniedDomains.getD []) = .ok () := by
  simp only [validatePolicyAgainstConstraints, bind_eq_ok] at h
  obtain ⟨-, -, -, -, -, -, -, -, -, -, -, -, -, -, -, -, ⟨⟩, hallowed, -⟩ := h
  exact hallowed

variable (hmanaged : constraints.allowedDomains = some managed)
include hmanaged

/-- Where the list may be smaller, every entry is allowed by a managed one. -/
theorem validateAllowedDomains_subset_iff
    (hexpansion : constraints.allowlistExpansionEnabled = none)
    (hwild : ∀ pattern ∈ managed, isGlobalWildcardDomainPattern pattern = false) :
    validateAllowedDomains urlHostParse constraints allowed denied = .ok () ↔
      ∀ entry ∈ allowed, ∃ pattern ∈ managed,
        (DomainPattern.parseForConstraints urlHostParse pattern).allows
          (DomainPattern.parseForConstraints urlHostParse entry) = true := by
  have hfind : validateNonGlobalWildcardDomainPatterns "network.allowed_domains".toList managed =
      .ok () := by
    have hnone : managed.find? isGlobalWildcardDomainPattern = none := by
      rw [List.find?_eq_none]
      intro pattern hpattern
      simp [hwild pattern hpattern]
    simp only [validateNonGlobalWildcardDomainPatterns, hnone]
  simp only [validateAllowedDomains, hmanaged, hexpansion, hfind, ok_bind]
  split
  · rename_i hnil
    rw [List.filter_eq_nil_iff] at hnil
    simpa using hnil
  · rename_i hnil
    rw [List.filter_eq_nil_iff] at hnil
    simpa using hnil

/-- Where the list has to be the managed one, every entry is a managed one but for the case. -/
theorem exists_managed_of_same (hexpansion : constraints.allowlistExpansionEnabled = some false)
    (h : validateAllowedDomains urlHostParse constraints allowed denied = .ok ()) {entry : Text}
    (hentry : entry ∈ allowed) :
    ∃ pattern ∈ managed, pattern.map Char.toLower = entry.map Char.toLower := by
  simp only [validateAllowedDomains, hmanaged, hexpansion, bind_eq_ok] at h
  obtain ⟨-, -, h⟩ := h
  split at h
  · rename_i hsame
    rw [Bool.and_eq_true, List.all_eq_true] at hsame
    have hin := hsame.1 (entry.map Char.toLower) (List.mem_map_of_mem hentry)
    rw [decide_eq_true_eq, List.mem_filter] at hin
    obtain ⟨pattern, hpattern, heq⟩ := List.mem_map.mp hin.1
    exact ⟨pattern, hpattern, heq⟩
  · cases h

end accepted

/-! ### A configuration that only the allow list decides -/

lemma mem_foldl_upsertPermission {effective entries : List NetworkDomainPermissionEntry}
    (heffective : ∀ entry ∈ effective, entry.permission = .allow)
    (hentries : ∀ entry ∈ entries, entry.permission = .allow)
    (entry : NetworkDomainPermissionEntry) :
    entry ∈ entries.foldl upsertPermission effective ↔ entry ∈ effective ∨ entry ∈ entries := by
  induction entries generalizing effective with
  | nil => simp
  | cons first entries ih =>
    have hfirst := hentries first List.mem_cons_self
    have hrest : ∀ entry ∈ entries, entry.permission = .allow := fun e he =>
      hentries e (List.mem_cons_of_mem _ he)
    have hstep : upsertPermission effective first =
        if first ∈ effective then effective else effective ++ [first] := by
      have hsame : (effective.any fun other => other.pattern = first.pattern) = true ↔
          first ∈ effective := by
        rw [List.any_eq_true]
        constructor
        · rintro ⟨other, hother, heq⟩
          have hperm := heffective other hother
          rw [← hfirst] at hperm
          have : other = first := by
            cases other
            cases first
            simp_all
          exact this ▸ hother
        · intro hmem
          exact ⟨first, hmem, by simp⟩
      have hmap : (effective.map fun other =>
          if other.pattern = first.pattern ∧ other.permission.rank < first.permission.rank then
            first else other) = effective := by
        have hid : ∀ other ∈ effective,
            (if other.pattern = first.pattern ∧ other.permission.rank < first.permission.rank then
              first else other) = other := by
          intro other hother
          rw [heffective other hother, hfirst]
          simp
        rw [List.map_congr_left hid, List.map_id']
      simp only [upsertPermission, hsame, hmap]
    rw [List.foldl_cons, hstep]
    by_cases hmem : first ∈ effective
    · rw [if_pos hmem, ih heffective hrest, List.mem_cons]
      constructor
      · rintro (h | h)
        · exact .inl h
        · exact .inr (.inr h)
      · rintro (h | rfl | h)
        · exact .inl h
        · exact .inl hmem
        · exact .inr h
    · have hnew : ∀ entry ∈ effective ++ [first], entry.permission = .allow := by
        intro e he
        rcases List.mem_append.mp he with he | he
        · exact heffective e he
        · rwa [List.mem_singleton.mp he]
      rw [if_neg hmem, ih hnew hrest, List.mem_append, List.mem_singleton, List.mem_cons, or_assoc]

/-- The user allows the patterns and nothing else. -/
def allowing (patterns : List Text) : NetworkProxySettings Hook where
  enabled := false
  allowUpstreamProxy := false
  dangerouslyAllowNonLoopbackProxy := false
  dangerouslyAllowAllUnixSockets := false
  mode := .limited
  domains := some (patterns.map fun pattern => ⟨pattern, .allow⟩)
  unixSockets := none
  allowLocalBinding := false
  mitm := false
  mitmHooks := []

/-- The managed configuration gives an allow list and nothing else. -/
def managing (patterns : List Text) : NetworkProxyConstraints where
  enabled := none
  mode := none
  allowUpstreamProxy := none
  dangerouslyAllowNonLoopbackProxy := none
  dangerouslyAllowAllUnixSockets := none
  allowedDomains := some patterns
  allowlistExpansionEnabled := none
  deniedDomains := none
  denylistExpansionEnabled := none
  allowUnixSockets := none
  allowLocalBinding := none

section allowing

variable {Hook : Type} (patterns : List Text)

lemma mem_effectiveEntries_allowing (entry : NetworkDomainPermissionEntry) :
    entry ∈ effectiveEntries (patterns.map fun pattern => ⟨pattern, .allow⟩) ↔
      entry.permission = .allow ∧ entry.pattern ∈ patterns := by
  unfold effectiveEntries
  rw [mem_foldl_upsertPermission (by simp) (by simp)]
  obtain ⟨pattern, permission⟩ := entry
  simp only [List.not_mem_nil, false_or, List.mem_map, NetworkDomainPermissionEntry.mk.injEq]
  constructor
  · rintro ⟨p, hp, rfl, rfl⟩
    exact ⟨rfl, hp⟩
  · rintro ⟨rfl, hp⟩
    exact ⟨pattern, hp, rfl, rfl⟩

lemma mem_allowedDomains_allowing (pattern : Text) :
    pattern ∈ ((allowing patterns : NetworkProxySettings Hook).allowedDomains).getD [] ↔
      pattern ∈ patterns := by
  have hmem : pattern ∈ ((effectiveEntries (patterns.map fun pattern => ⟨pattern, .allow⟩)).filter
      (·.permission = .allow)).map (·.pattern) ↔ pattern ∈ patterns := by
    simp only [List.mem_map, List.mem_filter, mem_effectiveEntries_allowing, decide_eq_true_eq]
    constructor
    · rintro ⟨entry, ⟨⟨-, hin⟩, -⟩, rfl⟩
      exact hin
    · intro hin
      exact ⟨⟨pattern, .allow⟩, ⟨⟨rfl, hin⟩, rfl⟩, rfl⟩
  rw [← hmem]
  simp only [NetworkProxySettings.allowedDomains, NetworkProxySettings.domainEntries, allowing,
    Option.map_some]
  generalize List.map _ _ = entries
  by_cases hnil : entries = []
  · simp [Option.filter, hnil]
  · simp [Option.filter, hnil]

lemma deniedDomains_allowing :
    (allowing patterns : NetworkProxySettings Hook).deniedDomains = none := by
  have hnil : (effectiveEntries (patterns.map fun pattern => ⟨pattern, .allow⟩)).filter
      (·.permission = .deny) = [] := by
    rw [List.filter_eq_nil_iff]
    intro entry hentry
    rw [((mem_effectiveEntries_allowing patterns entry).mp hentry).1]
    decide
  simp [NetworkProxySettings.deniedDomains, NetworkProxySettings.domainEntries, allowing, hnil]

/-- There only the comparison of patterns can refuse. -/
theorem validate_allowing (env : ProxyEnv Hook) (managed user : List Text) :
    validatePolicyAgainstConstraints env (allowing user) (managing managed) =
      validateAllowedDomains env.urlHostParse (managing managed)
        ((allowing user : NetworkProxySettings Hook).allowedDomains.getD []) [] := by
  simp only [validatePolicyAgainstConstraints, deniedDomains_allowing, Option.getD_none]
  have hrest : ∀ x : Except NetworkProxyConstraintError Unit,
      (x >>= fun _ => (.ok () : Except NetworkProxyConstraintError Unit)) = x := by
    intro x
    cases x <;> rfl
  exact hrest _

end allowing

/-! ### Soundness of the managed allow list -/

/-- Whatever else is configured and managed, where the list must be the managed one or a part of it
and the configuration is accepted, the user's globs match no host that the managed globs do not. -/
def AllowlistSound (env : ProxyEnv Hook) (managed user : List Text) : Prop :=
  ∀ (network : NetworkProxySettings Hook) (constraints : NetworkProxyConstraints),
    constraints.allowedDomains = some managed →
    constraints.allowlistExpansionEnabled ≠ some true →
    (∀ entry, entry ∈ network.allowedDomains.getD [] ↔ entry ∈ user) →
    validatePolicyAgainstConstraints env network constraints = .ok () →
    ∀ host, IsHost host →
      isMatch (compileAllowlistGlobset (network.allowedDomains.getD [])) host = true →
      isMatch (compileAllowlistGlobset managed) host = true

lemma mem_compileAllowlistGlobset {patterns : List Text} {glob : Text} :
    glob ∈ compileAllowlistGlobset patterns ↔
      ∃ pattern ∈ patterns, glob ∈ expandDomainPattern (normalizePattern pattern) := by
  unfold compileAllowlistGlobset
  rw [List.mem_eraseDups, List.mem_flatMap]

lemma plainGlob_of_mem_compile {patterns : List Text} (h : ∀ pattern ∈ patterns, IsPlain pattern)
    {glob : Text} (hglob : glob ∈ compileAllowlistGlobset patterns) : PlainGlob glob := by
  obtain ⟨pattern, hpattern, hmem⟩ := mem_compileAllowlistGlobset.mp hglob
  exact plainGlob_of_mem (h pattern hpattern) hmem

lemma isGlobalWildcard_of_plain {pattern : Text} (h : IsPlain pattern) :
    isGlobalWildcardDomainPattern pattern = false := by
  rw [isGlobalWildcardDomainPattern, List.any_eq_false]
  intro candidate hcandidate
  rw [decide_eq_true_eq]
  intro heq
  cases plainGlob_of_mem h hcandidate with
  | domain hdomain => exact hdomain.not_mem (c := '*') (by decide) (by simp [heq])
  | subdomains hdomain hne => simp at heq

/-- An accepted allow list stays within the managed one exactly when an entry is refused by the
comparison of the patterns, or the managed globs match each of the user's globs read as a host. -/
theorem allowlistSound_iff {Hook : Type} (env : ProxyEnv Hook) (managed user : List Text)
    (hmanaged : ∀ pattern ∈ managed, IsPlain pattern) (huser : ∀ entry ∈ user, IsPlain entry) :
    AllowlistSound env managed user ↔ (∃ entry ∈ user, ∀ pattern ∈ managed,
        (DomainPattern.parseForConstraints env.urlHostParse pattern).allows
          (DomainPattern.parseForConstraints env.urlHostParse entry) = false) ∨
      ∀ glob ∈ compileAllowlistGlobset user, glob ≠ [] →
        isMatch (compileAllowlistGlobset managed) glob = true := by
  have hwild : ∀ pattern ∈ managed, isGlobalWildcardDomainPattern pattern = false :=
    fun pattern hpattern => isGlobalWildcard_of_plain (hmanaged pattern hpattern)
  constructor
  · intro hsound
    rw [or_iff_not_imp_left]
    intro haccepted glob hglob hne
    push Not at haccepted
    have hmem : ∀ entry,
        entry ∈ (allowing user : NetworkProxySettings Hook).allowedDomains.getD [] ↔
        entry ∈ user := mem_allowedDomains_allowing user
    have hvalid : validatePolicyAgainstConstraints env (allowing user)
        (managing managed) = .ok () := by
      rw [validate_allowing, validateAllowedDomains_subset_iff rfl rfl hwild]
      intro entry hentry
      obtain ⟨pattern, hpattern, hallows⟩ := haccepted entry ((hmem entry).mp hentry)
      exact ⟨pattern, hpattern, by simpa using hallows⟩
    have hglobs : ∀ glob, glob ∈ compileAllowlistGlobset
        ((allowing user : NetworkProxySettings Hook).allowedDomains.getD []) ↔
          glob ∈ compileAllowlistGlobset user := by
      intro glob
      simp only [mem_compileAllowlistGlobset, hmem]
    refine covers_of_isMatch (fun glob h => plainGlob_of_mem_compile huser ((hglobs glob).mp h))
      (fun glob h => plainGlob_of_mem_compile hmanaged h)
      (hsound (allowing user) (managing managed) rfl (by simp [managing]) hmem hvalid)
      ((hglobs glob).mpr hglob) hne
  · rintro hcondition network constraints hlist hexpansion hmem hvalid host hhost hmatch
    have hallowed := validateAllowedDomains_of_ok hvalid
    obtain ⟨glob, hglob, hglobMatch⟩ := List.any_eq_true.mp hmatch
    obtain ⟨entry, hentry, hexpand⟩ := mem_compileAllowlistGlobset.mp hglob
    rcases hexp : constraints.allowlistExpansionEnabled with _ | expansion
    · rw [validateAllowedDomains_subset_iff hlist hexp hwild] at hallowed
      rcases hcondition with ⟨refused, hrefused, hnone⟩ | hcovers
      · obtain ⟨pattern, hpattern, hallows⟩ := hallowed refused ((hmem refused).mpr hrefused)
        exact absurd hallows (by simp [hnone pattern hpattern])
      · have hsame : ∀ glob, glob ∈ compileAllowlistGlobset (network.allowedDomains.getD []) →
            glob ∈ compileAllowlistGlobset user := by
          intro glob
          simp only [mem_compileAllowlistGlobset, hmem]
          exact id
        exact isMatch_of_covers (fun glob h => plainGlob_of_mem_compile huser (hsame glob h))
          (fun glob h => plainGlob_of_mem_compile hmanaged h)
          (fun glob h hne => hcovers glob (hsame glob h) hne) hhost hmatch
    · cases expansion with
      | true => exact absurd hexp hexpansion
      | false =>
        obtain ⟨pattern, hpattern, hlower⟩ := exists_managed_of_same hlist hexp hallowed hentry
        have hnormal : normalizePattern pattern = normalizePattern entry := by
          rw [← normalizePattern_map_toLower, hlower, normalizePattern_map_toLower]
        refine List.any_eq_true.mpr ⟨glob, ?_, hglobMatch⟩
        exact mem_compileAllowlistGlobset.mpr ⟨pattern, hpattern, hnormal ▸ hexpand⟩

/-- Names as the URL parser takes them: without its forbidden characters, in lower case. -/
def hostNames : ProxyEnv Unit where
  urlHostParse := fun s =>
    if s = [] ∨ s.any (fun c => c.toNat ≤ 32 || c ∈ "#/:<>?@[\\]^|%".toList || c = '\x7f') then none
    else some (s.map Char.toLower)
  validateHooks := fun _ => .ok ()

theorem allowlistSound_iff_example :
    AllowlistSound hostNames ["**.example.com".toList] ["api.example.com".toList] := by
  have hplain : ∀ pattern,
      ("**.example.com".toList = pattern ∨ "api.example.com".toList = pattern) →
      IsPlain pattern := by
    rintro pattern (rfl | rfl)
    · unfold IsPlain
      decide +kernel
    · unfold IsPlain
      decide +kernel
  refine (allowlistSound_iff hostNames _ _ (fun pattern h => ?_) fun pattern h => ?_).mpr
    (.inr (by decide +kernel))
  · exact hplain pattern (.inl (List.mem_singleton.mp h).symm)
  · exact hplain pattern (.inr (List.mem_singleton.mp h).symm)

/-- A managed host with a port is read as the empty name, and so is any other host with a port; and
a name that starts with a dot counts as a subdomain. -/
theorem allowlist_escaped :
    ¬ AllowlistSound hostNames ["example.com:443".toList] ["evil.com:443".toList] ∧
      ¬ AllowlistSound hostNames ["**.example.com".toList] [".example.com".toList] := by
  constructor
  · intro hsound
    have hmatch := hsound (allowing ["evil.com:443".toList])
      (managing ["example.com:443".toList]) rfl
      (by decide) (mem_allowedDomains_allowing _) (by decide +kernel) "evil.com".toList
      ⟨by decide +kernel, "evil.com".toList, by decide +kernel⟩ (by decide +kernel)
    cases hmatch
  · intro hsound
    have hmatch := hsound (allowing [".example.com".toList])
      (managing ["**.example.com".toList]) rfl
      (by decide) (mem_allowedDomains_allowing _) (by decide +kernel) ".example.com".toList
      ⟨by decide +kernel, ".example.com".toList, by decide +kernel⟩ (by decide +kernel)
    cases hmatch

end Codex.NetworkProxy
