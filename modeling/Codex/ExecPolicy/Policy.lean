import Codex.Permissions.AbsolutePath
import Mathlib.Data.List.Forall2
import Mathlib.Data.List.MinMax

/-!
# Exec policies

`execpolicy/src`: a policy holds prefix rules by program, network rules, and for some program names
the paths that may stand for them. A command is matched against the rules of its first token, and
only when none of them matches against the rules of that program's file name.
-/

namespace Codex.ExecPolicy

open Codex.Lib
open Codex.Permissions (AbsolutePathBuf Environment fromAbsolutePath components)

/-! ### Decisions -/

/-- `Decision`; the derived order is that of the constructors -/
inductive Decision where
  | allow
  | prompt
  | forbidden
  deriving DecidableEq

namespace Decision

/-- The place in the derived order. -/
def rank : Decision → ℕ
  | .allow => 0
  | .prompt => 1
  | .forbidden => 2

lemma rank_injective : Function.Injective rank := by
  intro a b h
  cases a <;> cases b <;> first | rfl | simp [rank] at h

instance : LinearOrder Decision := LinearOrder.lift' rank rank_injective

lemma allow_le (d : Decision) : Decision.allow ≤ d := Nat.zero_le (rank d)

end Decision

/-! ### Rules -/

inductive PatternToken where
  | single (expected : Text)
  | alts (alternatives : List Text)

def PatternToken.matches : PatternToken → Text → Bool
  | .single expected, token => expected = token
  | .alts alternatives, token => alternatives.any fun alt => alt = token

def PatternToken.alternatives : PatternToken → List Text
  | .single expected => [expected]
  | .alts alternatives => alternatives

structure PrefixPattern where
  first : Text
  rest : List PatternToken

def PrefixPattern.matchesPrefix (pattern : PrefixPattern) (cmd : List Text) : Option (List Text) :=
  let patternLength := pattern.rest.length + 1
  if cmd.length < patternLength ∨ cmd.head? ≠ some pattern.first then none
  else if (pattern.rest.zip ((cmd.take patternLength).drop 1)).all fun (patternToken, cmdToken) =>
      patternToken.matches cmdToken then
    some (cmd.take patternLength)
  else none

inductive RuleMatch where
  | prefixRuleMatch (matchedPrefix : List Text) (decision : Decision)
      (resolvedProgram : Option AbsolutePathBuf) (justification : Option Text)
  | heuristicsRuleMatch (command : List Text) (decision : Decision)

namespace RuleMatch

def decision : RuleMatch → Decision
  | .prefixRuleMatch _ decision _ _ => decision
  | .heuristicsRuleMatch _ decision => decision

def withResolvedProgram (resolvedProgram : AbsolutePathBuf) : RuleMatch → RuleMatch
  | .prefixRuleMatch matchedPrefix decision _ justification =>
    .prefixRuleMatch matchedPrefix decision (some resolvedProgram) justification
  | other => other

@[simp] lemma decision_withResolvedProgram (program : AbsolutePathBuf) (m : RuleMatch) :
    (m.withResolvedProgram program).decision = m.decision := by
  cases m <;> rfl

end RuleMatch

structure PrefixRule where
  pattern : PrefixPattern
  decision : Decision
  justification : Option Text

/-- `Rule::matches` for `PrefixRule` -/
def PrefixRule.matches (rule : PrefixRule) (cmd : List Text) : Option RuleMatch :=
  (rule.pattern.matchesPrefix cmd).map fun matchedPrefix =>
    .prefixRuleMatch matchedPrefix rule.decision none rule.justification

inductive NetworkRuleProtocol where
  | http
  | https
  | socks5Tcp
  | socks5Udp
  deriving DecidableEq

structure NetworkRule where
  host : Text
  protocol : NetworkRuleProtocol
  decision : Decision
  justification : Option Text

/-! ### Errors -/

/-- `Error`, without the locations and with an example by its tokens -/
inductive Error where
  | starlark
  | invalidDecision (raw : Text)
  | invalidPattern (message : Text)
  | invalidExample (message : Text)
  | invalidRule (message : Text)
  | exampleDidNotMatch (examples : List (List Text))
  | exampleDidMatch (matched : List Text)
  deriving DecidableEq

variable (raw : Text)

def Decision.parse : Except Error Decision :=
  if raw = "allow".toList then .ok .allow
  else if raw = "prompt".toList then .ok .prompt
  else if raw = "forbidden".toList then .ok .forbidden
  else .error (.invalidDecision raw)

def NetworkRuleProtocol.parse : Except Error NetworkRuleProtocol :=
  if raw = "http".toList then .ok .http
  else if raw = "https".toList ∨ raw = "https_connect".toList ∨ raw = "http-connect".toList then
    .ok .https
  else if raw = "socks5_tcp".toList then .ok .socks5Tcp
  else if raw = "socks5_udp".toList then .ok .socks5Udp
  else
    .error (.invalidRule (("network_rule protocol must be one of http, https, socks5_tcp, " ++
      "socks5_udp (got ").toList ++ raw ++ [')']))

def NetworkRuleProtocol.asPolicyString : NetworkRuleProtocol → Text
  | .http => "http".toList
  | .https => "https".toList
  | .socks5Tcp => "socks5_tcp".toList
  | .socks5Udp => "socks5_udp".toList

/-- A port: digits, at least one. -/
def isPort (port : Text) : Bool := !port.isEmpty && port.all Char.isDigit

/-- The part of `normalize_network_rule_host` that strips brackets and a port -/
def stripHostPort (raw host : Text) : Except Error Text :=
  match host with
  | '[' :: stripped =>
    match splitOnce [']'] stripped with
    | none =>
      .error (.invalidRule "network_rule host has an invalid bracketed IPv6 literal".toList)
    | some (inside, rest) =>
      if rest = [] ∨ (stripPrefix [':'] rest).any isPort = true then .ok inside
      else
        .error (.invalidRule
          ("network_rule host contains an unsupported suffix: ".toList ++ raw))
  | host =>
    if host.count ':' = 1 then
      match splitOnce [':'] host with
      | some (candidate, port) =>
        if candidate ≠ [] ∧ isPort port = true then .ok candidate else .ok host
      | none => .ok host
    else .ok host

def normalizeNetworkRuleHost : Except Error Text :=
  let host := trim raw
  if host = [] then .error (.invalidRule "network_rule host cannot be empty".toList)
  else if "://".toList <:+: host ∨ '/' ∈ host ∨ '?' ∈ host ∨ '#' ∈ host then
    .error (.invalidRule ("network_rule host must be a hostname or IP literal " ++
      "(without scheme or path)").toList)
  else
    match stripHostPort raw host with
    | .error error => .error error
    | .ok host =>
      let normalized := (trim (host.rdropWhile (· = '.'))).map Char.toLower
      if normalized = [] then .error (.invalidRule "network_rule host cannot be empty".toList)
      else if '*' ∈ normalized then
        .error (.invalidRule ("network_rule host must be a specific host; " ++
          "wildcards are not allowed").toList)
      else if normalized.any isWhitespace then
        .error (.invalidRule "network_rule host cannot contain whitespace".toList)
      else .ok normalized

/-! ### Policies -/

structure MatchOptions where
  resolveHostExecutables : Bool := false

/-- `Policy`; the multimap is the list of its insertions -/
structure Policy where
  rulesByProgram : List (Text × PrefixRule)
  networkRules : List NetworkRule
  hostExecutablesByName : Text → Option (List AbsolutePathBuf)

/-- `executable_path_lookup_key`, outside of Windows -/
def executablePathLookupKey (path : AbsolutePathBuf) : Option Text := path.getLast?

namespace Policy

def empty : Policy := ⟨[], [], fun _ => none⟩

variable (policy : Policy)

/-- `MultiMap::get_vec`, empty where there is no entry -/
def getVec (program : Text) : List PrefixRule :=
  (policy.rulesByProgram.filter fun entry => entry.1 = program).map (·.2)

def mergeOverlay (policy overlay : Policy) : Policy where
  rulesByProgram := policy.rulesByProgram ++ overlay.rulesByProgram
  networkRules := policy.networkRules ++ overlay.networkRules
  hostExecutablesByName := fun name =>
    (overlay.hostExecutablesByName name).or (policy.hostExecutablesByName name)

def addPrefixRule (command : List Text) (decision : Decision) : Except Error Policy :=
  match command with
  | [] => .error (.invalidPattern "prefix cannot be empty".toList)
  | firstToken :: rest =>
    .ok { policy with
      rulesByProgram := policy.rulesByProgram ++
        [(firstToken, ⟨⟨firstToken, rest.map .single⟩, decision, none⟩)] }

def addNetworkRule (host : Text) (protocol : NetworkRuleProtocol)
    (decision : Decision) (justification : Option Text) : Except Error Policy := do
  let host ← normalizeNetworkRuleHost host
  if justification.any fun raw => trim raw = [] then
    .error (.invalidRule "justification cannot be empty".toList)
  else
    .ok { policy with
      networkRules := policy.networkRules ++ [⟨host, protocol, decision, justification⟩] }

def upsertDomain (entries : List Text) (host : Text) : List Text :=
  entries.filter (· ≠ host) ++ [host]

/-- The body of the loop of `compiled_network_domains` -/
def compileNetworkRule (domains : List Text × List Text) (rule : NetworkRule) :
    List Text × List Text :=
  match rule.decision with
  | .allow => (upsertDomain domains.1 rule.host, domains.2.filter (· ≠ rule.host))
  | .forbidden => (domains.1.filter (· ≠ rule.host), upsertDomain domains.2 rule.host)
  | .prompt => domains

/-- `Policy::compiled_network_domains`, the allowed and the denied domains -/
def compiledNetworkDomains : List Text × List Text :=
  policy.networkRules.foldl compileNetworkRule ([], [])

def matchExactRules (cmd : List Text) : Option (List RuleMatch) := do
  let first ← cmd.head?
  return (policy.getVec first).filterMap fun rule => rule.matches cmd

def matchHostExecutableRules (env : Environment) (policy : Policy) (cmd : List Text) :
    List RuleMatch :=
  match cmd.head? with
  | none => []
  | some first =>
    match fromAbsolutePath env (components first) with
    | none => []
    | some program =>
      match executablePathLookupKey program with
      | none => []
      | some basename =>
        if (policy.hostExecutablesByName basename).any fun paths => program ∉ paths then []
        else
          ((policy.getVec basename).filterMap fun rule =>
            rule.matches (basename :: cmd.drop 1)).map (RuleMatch.withResolvedProgram program)

def matchesForCommandWithOptions (env : Environment) (policy : Policy) (cmd : List Text)
    (heuristicsFallback : Option (List Text → Decision)) (options : MatchOptions) :
    List RuleMatch :=
  let exactMatches := (policy.matchExactRules cmd).getD []
  let matchedRules :=
    if exactMatches ≠ [] then exactMatches
    else if options.resolveHostExecutables then policy.matchHostExecutableRules env cmd
    else []
  match heuristicsFallback with
  | some heuristicsFallback =>
    if matchedRules = [] then [.heuristicsRuleMatch cmd (heuristicsFallback cmd)]
    else matchedRules
  | none => matchedRules

end Policy

structure Evaluation where
  decision : Decision
  matchedRules : List RuleMatch

variable (matchedRules : List RuleMatch)

/-- The most restrictive decision of the matched rules, if there are any. -/
def strictest : Option Decision :=
  (matchedRules.map RuleMatch.decision).max?

/-- `Evaluation::from_matches`; without matches the code panics -/
def Evaluation.fromMatches : Option Evaluation :=
  (strictest matchedRules).map fun decision => ⟨decision, matchedRules⟩

def Policy.checkWithOptions (env : Environment) (policy : Policy) (cmd : List Text)
    (heuristicsFallback : List Text → Decision) (options : MatchOptions) : Option Evaluation :=
  Evaluation.fromMatches
    (policy.matchesForCommandWithOptions env cmd (some heuristicsFallback) options)

/-! ### The strictest decision -/

variable {env : Environment} {policy : Policy} {cmd : List Text} {ms ms' : List RuleMatch}
  {d : Decision}

lemma strictest_eq_some_iff :
    strictest ms = some d ↔ (∃ m ∈ ms, m.decision = d) ∧ ∀ m ∈ ms, m.decision ≤ d := by
  unfold strictest
  rw [List.max?_eq_some_iff]
  simp

lemma strictest_eq_none_iff : strictest ms = none ↔ ms = [] := by
  unfold strictest
  rw [List.max?_eq_none_iff, List.map_eq_nil_iff]

lemma exists_strictest (h : ms ≠ []) : ∃ d, strictest ms = some d :=
  Option.ne_none_iff_exists'.mp fun hnone => h (strictest_eq_none_iff.mp hnone)

/-- The strictest decision only rises when more rules match. -/
theorem strictest_le_of_subset {d' : Decision} (h : strictest ms = some d)
    (h' : strictest ms' = some d') (hsub : ∀ m ∈ ms, m ∈ ms') : d ≤ d' := by
  obtain ⟨⟨m, hm, rfl⟩, -⟩ := strictest_eq_some_iff.mp h
  exact (strictest_eq_some_iff.mp h').2 m (hsub m hm)

lemma strictest_append (ms ms' : List RuleMatch) :
    strictest (ms ++ ms') = (strictest ms).merge max (strictest ms') := by
  induction ms with
  | nil =>
    cases h : strictest ms' with
    | none => rw [List.nil_append, h]; rfl
    | some d => rw [List.nil_append, h]; rfl
  | cons m ms ih =>
    unfold strictest at ih ⊢
    rw [List.cons_append, List.map_cons, List.map_cons, List.max?_cons, List.max?_cons, ih]
    cases (ms.map RuleMatch.decision).max? with
    | none => cases (ms'.map RuleMatch.decision).max? <;> simp [Option.merge]
    | some d => cases (ms'.map RuleMatch.decision).max? <;> simp [Option.merge, max_assoc]

/-! ### The two lookups -/

variable (policy)

/-- The rules of the command's first token that match it. -/
def Policy.exactMatches (cmd : List Text) : List RuleMatch :=
  (policy.matchExactRules cmd).getD []

lemma Policy.exactMatches_eq (cmd : List Text) :
    policy.exactMatches cmd =
      cmd.head?.elim [] fun first => (policy.getVec first).filterMap fun rule =>
        rule.matches cmd := by
  unfold Policy.exactMatches Policy.matchExactRules
  cases cmd.head? <;> rfl

/-- The absolute path a command's first token stands for, and its file name. -/
def hostProgram (env : Environment) (cmd : List Text) : Option (AbsolutePathBuf × Text) := do
  let first ← cmd.head?
  let program ← fromAbsolutePath env (components first)
  let basename ← executablePathLookupKey program
  return (program, basename)

/-- The path may stand for the name in the policy. -/
def Policy.listsHost (program : AbsolutePathBuf) (basename : Text) : Bool :=
  !(policy.hostExecutablesByName basename).any fun paths => program ∉ paths

lemma Policy.matchHostExecutableRules_eq (cmd : List Text) :
    policy.matchHostExecutableRules env cmd =
      (hostProgram env cmd).elim [] fun (program, basename) =>
        if policy.listsHost program basename then
          ((policy.getVec basename).filterMap fun rule =>
            rule.matches (basename :: cmd.drop 1)).map (RuleMatch.withResolvedProgram program)
        else [] := by
  unfold Policy.matchHostExecutableRules hostProgram Policy.listsHost
  cases cmd.head? with
  | none => rfl
  | some first =>
    simp only [Option.bind_eq_bind, Option.bind_some]
    cases fromAbsolutePath env (components first) with
    | none => rfl
    | some program =>
      simp only [Option.bind_some]
      cases executablePathLookupKey program with
      | none => rfl
      | some basename =>
        simp only [Option.bind_some, Option.pure_def, Option.elim_some]
        cases (policy.hostExecutablesByName basename).any fun paths => program ∉ paths <;> rfl

/-- The matches of the file name decide as the exact matches of the command with that name. -/
theorem Policy.strictest_matchHost (cmd : List Text) :
    strictest (policy.matchHostExecutableRules env cmd) =
      (hostProgram env cmd).elim none fun (program, basename) =>
        if policy.listsHost program basename then
          strictest (policy.exactMatches (basename :: cmd.drop 1))
        else none := by
  rw [Policy.matchHostExecutableRules_eq]
  cases hostProgram env cmd with
  | none => rfl
  | some pair =>
    obtain ⟨program, basename⟩ := pair
    simp only [Option.elim_some]
    split
    · rw [Policy.exactMatches_eq]
      simp [strictest, Function.comp_def]
    · rfl

variable {policy}

/-- Policies whose exact matches decide alike and that list the same paths decide alike. -/
theorem Policy.decision_congr {policy' : Policy}
    (hexact : ∀ cmd, strictest (policy.exactMatches cmd) = strictest (policy'.exactMatches cmd))
    (hhosts : policy.hostExecutablesByName = policy'.hostExecutablesByName) (cmd : List Text)
    (options : MatchOptions) :
    strictest (policy.matchesForCommandWithOptions env cmd none options) =
      strictest (policy'.matchesForCommandWithOptions env cmd none options) := by
  have hnil : policy.exactMatches cmd = [] ↔ policy'.exactMatches cmd = [] := by
    rw [← strictest_eq_none_iff, hexact, strictest_eq_none_iff]
  have hhost : strictest (policy.matchHostExecutableRules env cmd) =
      strictest (policy'.matchHostExecutableRules env cmd) := by
    have hlists : policy.listsHost = policy'.listsHost := by
      unfold Policy.listsHost
      rw [hhosts]
    rw [Policy.strictest_matchHost, Policy.strictest_matchHost, hlists]
    simp only [hexact]
  unfold Policy.matchesForCommandWithOptions
  show strictest (if policy.exactMatches cmd ≠ [] then _ else _) =
    strictest (if policy'.exactMatches cmd ≠ [] then _ else _)
  by_cases hempty : policy.exactMatches cmd = []
  · rw [if_neg (not_not.mpr hempty), if_neg (not_not.mpr (hnil.mp hempty))]
    split
    · exact hhost
    · rfl
  · rw [if_pos hempty, if_pos fun h => hempty (hnil.mpr h)]
    exact hexact cmd

/-- Without a fallback, the exact matches, or else those of the file name. -/
theorem Policy.matches_none (policy : Policy) (cmd : List Text) (options : MatchOptions) :
    policy.matchesForCommandWithOptions env cmd none options =
      if policy.exactMatches cmd ≠ [] then policy.exactMatches cmd
      else if options.resolveHostExecutables then policy.matchHostExecutableRules env cmd
      else [] := rfl

/-- With a fallback, those matches, or else the fallback's decision. -/
theorem Policy.matches_some (policy : Policy) (cmd : List Text) (fallback : List Text → Decision)
    (options : MatchOptions) :
    policy.matchesForCommandWithOptions env cmd (some fallback) options =
      if policy.matchesForCommandWithOptions env cmd none options = [] then
        [.heuristicsRuleMatch cmd (fallback cmd)]
      else policy.matchesForCommandWithOptions env cmd none options := rfl

/-- The decision of a check: the strictest of the matches, or else the fallback's. -/
theorem Policy.decision_checkWithOptions (env : Environment) (policy : Policy) (cmd : List Text)
    (fallback : List Text → Decision) (options : MatchOptions) :
    (policy.checkWithOptions env cmd fallback options).map Evaluation.decision =
      some ((strictest (policy.matchesForCommandWithOptions env cmd none options)).getD
        (fallback cmd)) := by
  unfold Policy.checkWithOptions Evaluation.fromMatches
  rw [Policy.matches_some, Option.map_map]
  split
  · rename_i hnil
    rw [hnil]
    rfl
  · rename_i hne
    obtain ⟨d, hd⟩ := exists_strictest hne
    rw [hd]
    rfl

/-! ### Adding a rule -/

section addRule

variable {rule : PrefixRule} {command : List Text}

/-- A rule matches the commands that start with its program and then with one token for each of its
pattern's. -/
theorem PrefixRule.matches_ne_none_iff :
    rule.matches cmd ≠ none ↔ ∃ tokens, cmd = rule.pattern.first :: tokens ∧
      List.Forall₂ (fun patternToken token => PatternToken.matches patternToken token = true)
        rule.pattern.rest (tokens.take rule.pattern.rest.length) := by
  unfold PrefixRule.matches PrefixPattern.matchesPrefix
  simp only [List.forall₂_iff_zip]
  cases cmd with
  | nil => simp
  | cons token tokens =>
    by_cases hfirst : token = rule.pattern.first
    · by_cases hlen : rule.pattern.rest.length ≤ tokens.length
      · have hzip : (rule.pattern.rest.zip (tokens.take rule.pattern.rest.length)).all
            (fun (patternToken, cmdToken) => patternToken.matches cmdToken) = true ↔
              ∀ patternToken token, (patternToken, token) ∈ rule.pattern.rest.zip
                (tokens.take rule.pattern.rest.length) → patternToken.matches token = true := by
          simp
        rw [List.take_succ_cons, List.drop_one, List.tail_cons]
        simp only [hfirst, List.length_cons, Nat.add_lt_add_iff_right, not_lt.mpr hlen,
          List.head?_cons, ne_eq, not_true_eq_false, or_self, if_false, hzip]
        simp [hlen]
      · simp [hfirst, hlen]
    · simp [hfirst]

lemma PrefixRule.head?_of_matches (h : rule.matches cmd ≠ none) :
    cmd.head? = some rule.pattern.first := by
  obtain ⟨tokens, rfl, -⟩ := PrefixRule.matches_ne_none_iff.mp h
  rfl

/-- A rule that matches a command matches everything that extends it. -/
theorem PrefixRule.matches_append (h : rule.matches command ≠ none) (rest : List Text) :
    rule.matches (command ++ rest) ≠ none := by
  obtain ⟨tokens, rfl, hall⟩ := PrefixRule.matches_ne_none_iff.mp h
  refine PrefixRule.matches_ne_none_iff.mpr ⟨tokens ++ rest, rfl, ?_⟩
  have hlen := hall.length_eq
  rw [List.length_take] at hlen
  rwa [List.take_append_of_le_length (by omega)]

variable {justification : Option Text}

/-- A rule of single tokens matches only commands that start with them. -/
theorem PrefixRule.isPrefix_of_matches {first : Text} {rest : List Text}

    (h : PrefixRule.matches ⟨⟨first, rest.map .single⟩, d, justification⟩ cmd ≠ none) :
    first :: rest <+: cmd := by
  obtain ⟨tokens, rfl, hall⟩ := PrefixRule.matches_ne_none_iff.mp h
  have heq : List.Forall₂ (· = ·) rest (tokens.take rest.length) := by
    simpa [List.forall₂_map_left_iff, PatternToken.matches] using hall
  rw [List.cons_prefix_cons]
  refine ⟨rfl, ?_⟩
  rw [List.forall₂_eq_eq_eq] at heq
  rw [heq]
  exact List.take_prefix _ _

variable (policy)

/-- The policy with one more rule at the end. -/
def Policy.addRule (rule : PrefixRule) : Policy :=
  { policy with rulesByProgram := policy.rulesByProgram ++ [(rule.pattern.first, rule)] }

lemma Policy.exactMatches_addRule (rule : PrefixRule) (cmd : List Text) :
    (policy.addRule rule).exactMatches cmd =
      policy.exactMatches cmd ++ (rule.matches cmd).toList := by
  rw [Policy.exactMatches_eq, Policy.exactMatches_eq]
  cases hmatch : rule.matches cmd with
  | none =>
    cases hhead : cmd.head? with
    | none => simp
    | some first =>
      simp only [Option.elim_some, Policy.getVec, Policy.addRule, List.filter_append,
        List.map_append, List.filterMap_append, Option.toList_none]
      congr 1
      by_cases hfirst : rule.pattern.first = first
      · simp [hfirst, hmatch]
      · simp [hfirst]
  | some m =>
    have hne : rule.matches cmd ≠ none := by simp [hmatch]
    have hhead := PrefixRule.head?_of_matches hne
    simp [hhead, Policy.getVec, Policy.addRule, hmatch]

/-- The rule adds no command to those that a rule of their first token matches. -/
def Policy.Covers (rule : PrefixRule) : Prop :=
  ∀ cmd, rule.matches cmd ≠ none → policy.exactMatches cmd ≠ []

variable {policy}

/-- An allow rule changes no decision where its commands are matched anyway. -/
theorem Policy.strictest_addRule_of_covers (hallow : rule.decision = .allow)
    (hcovers : policy.Covers rule) (cmd : List Text) :
    strictest ((policy.addRule rule).exactMatches cmd) = strictest (policy.exactMatches cmd) := by
  rw [Policy.exactMatches_addRule, strictest_append]
  cases hmatch : rule.matches cmd with
  | none => cases strictest (policy.exactMatches cmd) <;> rfl
  | some m =>
    obtain ⟨d, hd⟩ := exists_strictest (hcovers cmd (by simp [hmatch]))
    obtain ⟨matched, -, rfl⟩ := Option.map_eq_some_iff.mp hmatch
    rw [hd]
    simp [strictest, RuleMatch.decision, hallow, Option.merge, Decision.allow_le]

lemma Policy.strictest_addRule_congr {policy' : Policy}
    (h : ∀ cmd, strictest (policy.exactMatches cmd) = strictest (policy'.exactMatches cmd))
    (cmd : List Text) :
    strictest ((policy.addRule rule).exactMatches cmd) =
      strictest ((policy'.addRule rule).exactMatches cmd) := by
  rw [Policy.exactMatches_addRule, Policy.exactMatches_addRule, strictest_append,
    strictest_append, h]

/-- A policy that matches a command covers the rule for all that extends it. -/
theorem Policy.covers_of_exactMatches {first : Text} {rest : List Text}
    (h : policy.exactMatches (first :: rest) ≠ []) :
    policy.Covers ⟨⟨first, rest.map .single⟩, d, justification⟩ := by
  intro cmd hmatch
  obtain ⟨tail, rfl⟩ := PrefixRule.isPrefix_of_matches hmatch
  rw [Policy.exactMatches_eq] at h ⊢
  obtain ⟨m, hm⟩ := List.exists_mem_of_ne_nil _ h
  obtain ⟨rule, hrule, hmatches⟩ := List.mem_filterMap.mp hm
  have hne : rule.matches (first :: rest) ≠ none := by simp [hmatches]
  have hext := PrefixRule.matches_append hne tail
  obtain ⟨m', hm'⟩ := Option.ne_none_iff_exists'.mp hext
  exact List.ne_nil_of_mem (List.mem_filterMap.mpr ⟨rule, hrule, hm'⟩)

end addRule

end Codex.ExecPolicy
