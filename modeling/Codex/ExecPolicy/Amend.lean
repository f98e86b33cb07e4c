import Codex.ExecPolicy.NetworkDomains
import Codex.ExecPolicy.Parser
import Codex.Lib.Run

/-!
# Amending the policy

`append_amendment_and_update` and `append_network_rule_and_update` write a rule to the end of the
policy file and change the policy in memory. Both sides have their own reasons to leave a rule out:
the file when the line stands in it already, the memory when the command is allowed already.

* `Synced.update`: what one update keeps;
* `inStep_of_run`: after a run of updates the memory decides as the file does.
-/

namespace Codex.ExecPolicy

open Codex.Lib
open Codex.Permissions (Environment emptyEnvironment)

/-! ### Lines of the file -/

/-- `serde_json::to_string` of a string, one character -/
def escapeChar (c : Char) : Text :=
  if c = '"' then ['\\', '"']
  else if c = '\\' then ['\\', '\\']
  else if c = '\x08' then ['\\', 'b']
  else if c = '\t' then ['\\', 't']
  else if c = '\n' then ['\\', 'n']
  else if c = '\x0c' then ['\\', 'f']
  else if c = '\r' then ['\\', 'r']
  else if c.toNat < 32 then
    ['\\', 'u', '0', '0', Nat.digitChar (c.toNat / 16), Nat.digitChar (c.toNat % 16)]
  else [c]

/-- `serde_json::to_string` of a string -/
def jsonString (s : Text) : Text := '"' :: s.flatMap escapeChar ++ ['"']

/-- A rule that is appended to the file. -/
inductive RuleLine where
  | allowPrefix (command : List Text)
  | network (host : Text) (protocol : NetworkRuleProtocol) (decision : Decision)
      (justification : Option Text)
  deriving DecidableEq

/-- The text of a decision in `blocking_append_network_rule` -/
def networkDecisionText : Decision → Text
  | .allow => "allow".toList
  | .prompt => "prompt".toList
  | .forbidden => "deny".toList

/-- `rule` in `blocking_append_allow_prefix_rule` and `blocking_append_network_rule` -/
def RuleLine.render : RuleLine → Text
  | .allowPrefix command =>
    "prefix_rule(pattern=[".toList ++ ", ".toList.intercalate (command.map jsonString) ++
      "], decision=\"allow\")".toList
  | .network host protocol decision justification =>
    "network_rule(".toList ++ ", ".toList.intercalate
      (["host=".toList ++ jsonString host, "protocol=".toList ++ jsonString protocol.asPolicyString,
        "decision=".toList ++ jsonString (networkDecisionText decision)] ++
      (justification.map fun raw => "justification=".toList ++ jsonString raw).toList) ++
      [')']

/-- The call that the line makes when its literals are read back. -/
def RuleLine.call : RuleLine → BuiltinCall
  | .allowPrefix command =>
    .prefixRule (command.map .str) (some "allow".toList) none none none
  | .network host protocol decision justification =>
    .networkRule host protocol.asPolicyString (networkDecisionText decision) justification

/-- The newline that `append_locked_line` writes first where one is missing -/
def endLine (contents : Text) : Text :=
  if contents ≠ [] ∧ contents.getLast? ≠ some '\n' then contents ++ ['\n'] else contents

/-- What `append_locked_line` writes where the line is new -/
def appendLine (contents line : Text) : Text := endLine contents ++ line ++ ['\n']

def appendLockedLine (contents line : Text) : Text :=
  if line ∈ lines contents then contents else appendLine contents line

/-! ### Updates -/

/-- `AmendError`, without the failures of the file system -/
inductive AmendError where
  | emptyPrefix
  | invalidNetworkRule (error : Error)

/-- `ExecPolicyUpdateError`, without the failures of the task -/
inductive ExecPolicyUpdateError where
  | appendRule (source : AmendError)
  | addRule (source : Error)

def blockingAppendAllowPrefixRule (contents : Text) (command : List Text) :
    Except AmendError Text :=
  if command = [] then .error .emptyPrefix
  else .ok (appendLockedLine contents (RuleLine.allowPrefix command).render)

def blockingAppendNetworkRule (contents host : Text) (protocol : NetworkRuleProtocol)
    (decision : Decision) (justification : Option Text) : Except AmendError Text :=
  match normalizeNetworkRuleHost host with
  | .error error => .error (.invalidNetworkRule error)
  | .ok host =>
    if justification.any fun raw => trim raw = [] then
      .error (.invalidNetworkRule (.invalidRule "justification cannot be empty".toList))
    else
      .ok (appendLockedLine contents (RuleLine.network host protocol decision justification).render)

def isPolicyMatch : RuleMatch → Bool
  | .prefixRuleMatch _ _ _ _ => true
  | .heuristicsRuleMatch _ _ => false

def Policy.checkMultipleWithOptions (env : Environment) (policy : Policy)
    (commands : List (List Text)) (heuristicsFallback : List Text → Decision)
    (options : MatchOptions) : Option Evaluation :=
  Evaluation.fromMatches (commands.flatMap fun command =>
    policy.matchesForCommandWithOptions env command (some heuristicsFallback) options)

/-- `already_allowed` in `append_amendment_and_update` -/
def alreadyAllowed (env : Environment) (policy : Policy) (command : List Text) : Bool :=
  (policy.checkMultipleWithOptions env [command] (fun _ => .forbidden) ⟨true⟩).any fun evaluation =>
    evaluation.decision = .allow &&
      evaluation.matchedRules.any fun ruleMatch =>
        isPolicyMatch ruleMatch && ruleMatch.decision = .allow

/-- `ExecPolicyManager`, with the contents of the policy file -/
structure ExecPolicyManager where
  policy : Policy
  file : Text

/-- The calls that change the policy. -/
inductive Update where
  | amendment (command : List Text)
  | networkRule (host : Text) (protocol : NetworkRuleProtocol) (decision : Decision)
      (justification : Option Text)

namespace ExecPolicyManager

def appendAmendmentAndUpdate (env : Environment) (manager : ExecPolicyManager)
    (command : List Text) : Except ExecPolicyUpdateError ExecPolicyManager :=
  match blockingAppendAllowPrefixRule manager.file command with
  | .error error => .error (.appendRule error)
  | .ok file =>
    if alreadyAllowed env manager.policy command then .ok { manager with file := file }
    else
      match manager.policy.addPrefixRule command .allow with
      | .error error => .error (.addRule error)
      | .ok policy => .ok ⟨policy, file⟩

def appendNetworkRuleAndUpdate (manager : ExecPolicyManager) (host : Text)
    (protocol : NetworkRuleProtocol) (decision : Decision) (justification : Option Text) :
    Except ExecPolicyUpdateError ExecPolicyManager :=
  match blockingAppendNetworkRule manager.file host protocol decision justification with
  | .error error => .error (.appendRule error)
  | .ok file =>
    match manager.policy.addNetworkRule host protocol decision justification with
    | .error error => .error (.addRule error)
    | .ok policy => .ok ⟨policy, file⟩

/-- One update. -/
def update (env : Environment) (manager : ExecPolicyManager) :
    Update → Except ExecPolicyUpdateError ExecPolicyManager
  | .amendment command => manager.appendAmendmentAndUpdate env command
  | .networkRule host protocol decision justification =>
    manager.appendNetworkRuleAndUpdate host protocol decision justification

end ExecPolicyManager

/-! ### Policies that decide alike -/

/-- The policy with one more network rule at the end. -/
def Policy.pushNetworkRule (policy : Policy) (rule : NetworkRule) : Policy :=
  { policy with networkRules := policy.networkRules ++ [rule] }

/-- What the decisions and the compiled domains of a policy are made of. -/
structure Policy.Alike (policy policy' : Policy) : Prop where
  exact_ : ∀ cmd, strictest (policy.exactMatches cmd) = strictest (policy'.exactMatches cmd)
  hosts : policy.hostExecutablesByName = policy'.hostExecutablesByName
  domains : policy.compiledNetworkDomains = policy'.compiledNetworkDomains

namespace Policy.Alike

variable {policy policy' : Policy} {rule : PrefixRule} (h : policy.Alike policy')
include h

lemma symm : policy'.Alike policy :=
  ⟨fun cmd => (h.exact_ cmd).symm, h.hosts.symm, h.domains.symm⟩

lemma addRule (rule : PrefixRule) : (policy.addRule rule).Alike (policy'.addRule rule) :=
  ⟨Policy.strictest_addRule_congr h.exact_, h.hosts, h.domains⟩

/-- An allow rule that adds no command may stand on one side only. -/
theorem addRule_left (hallow : rule.decision = .allow)
    (hcovers : policy.Covers rule) : (policy.addRule rule).Alike policy' :=
  ⟨fun cmd => (Policy.strictest_addRule_of_covers hallow hcovers cmd).trans (h.exact_ cmd),
    h.hosts, h.domains⟩

lemma covers (hcovers : policy.Covers rule) : policy'.Covers rule := by
  intro cmd hmatch hnil
  have hnone : strictest (policy.exactMatches cmd) = none := by
    rw [h.exact_, strictest_eq_none_iff, hnil]
  exact hcovers cmd hmatch (strictest_eq_none_iff.mp hnone)

end Policy.Alike

/-! ### Domains that are settled -/

lemma compiledNetworkDomains_push (policy : Policy) (rule : NetworkRule) :
    (policy.pushNetworkRule rule).compiledNetworkDomains =
      Policy.compileNetworkRule policy.compiledNetworkDomains rule := by
  unfold Policy.compiledNetworkDomains Policy.pushNetworkRule
  rw [List.foldl_append]
  rfl

/-- Every domain stands once, and on one side. -/
structure Separate (domains : List Text × List Text) : Prop where
  allowed : domains.1.Nodup
  denied : domains.2.Nodup
  disjoint : ∀ host ∈ domains.1, host ∉ domains.2

lemma separate_compiledNetworkDomains (policy : Policy) :
    Separate policy.compiledNetworkDomains where
  allowed := (registers_allowed policy).nodup
  denied := (registers_denied policy).nodup
  disjoint := (registers_allowed policy).disjoint (registers_denied policy) (by decide)

/-- The host stands last on the side of the decision already. -/
def Settled (domains : List Text × List Text) (host : Text) : Decision → Prop
  | .allow => domains.1.getLast? = some host
  | .prompt => True
  | .forbidden => domains.2.getLast? = some host

lemma upsertDomain_of_getLast? {entries : List Text} {host : Text} (hnodup : entries.Nodup)
    (h : entries.getLast? = some host) : Policy.upsertDomain entries host = entries := by
  obtain ⟨init, rfl⟩ := List.getLast?_eq_some_iff.mp h
  have hnot : host ∉ init := by
    intro hmem
    exact (List.nodup_append.mp hnodup).2.2 host hmem host List.mem_cons_self rfl
  have hinit : init.filter (· ≠ host) = init := by
    rw [List.filter_eq_self]
    intro entry hentry
    simpa using fun heq : entry = host => hnot (heq ▸ hentry)
  unfold Policy.upsertDomain
  rw [List.filter_append, hinit]
  simp

lemma compileNetworkRule_of_settled {domains : List Text × List Text} {rule : NetworkRule}
    (hsep : Separate domains) (h : Settled domains rule.host rule.decision) :
    Policy.compileNetworkRule domains rule = domains := by
  have hother : ∀ entries : List Text, rule.host ∉ entries →
      entries.filter (· ≠ rule.host) = entries := by
    intro entries hnot
    rw [List.filter_eq_self]
    intro entry hentry
    simpa using fun heq : entry = rule.host => hnot (heq ▸ hentry)
  unfold Policy.compileNetworkRule
  cases hdecision : rule.decision with
  | allow =>
    rw [hdecision] at h
    have hmem := List.mem_of_getLast? h
    show (Policy.upsertDomain domains.1 rule.host, domains.2.filter (· ≠ rule.host)) = domains
    rw [upsertDomain_of_getLast? hsep.allowed h, hother _ (hsep.disjoint _ hmem)]
  | prompt => rfl
  | forbidden =>
    rw [hdecision] at h
    have hmem := List.mem_of_getLast? h
    show (domains.1.filter (· ≠ rule.host), Policy.upsertDomain domains.2 rule.host) = domains
    rw [upsertDomain_of_getLast? hsep.denied h, hother _ fun hin => hsep.disjoint _ hin hmem]

/-! ### Lines that are read back -/

/-- The policy under construction that the file's calls lead to, with its examples checked. -/
def Loads (env : Environment) (reader : Reader) (contents : Text)
    (builder : PolicyBuilder) : Prop :=
  ∃ calls, reader.eval contents = some calls ∧
    calls.foldlM (applyCall env reader) PolicyBuilder.new = .ok builder ∧
    builder.pendingExampleValidations.forM (validateExamples env builder) = .ok ()

/-- An appended line is evaluated after the file it is appended to, and its literals are read back
as they were written. -/
def ReadsBack (reader : Reader) (contents : Text) (rule : RuleLine) : Prop :=
  ∀ calls, reader.eval contents = some calls →
    reader.eval (appendLine contents rule.render) = some (calls ++ [rule.call])

/-- The rule of an amendment. -/
def allowRule (first : Text) (rest : List Text) : PrefixRule :=
  ⟨⟨first, rest.map .single⟩, .allow, none⟩

section loads

variable {env : Environment} {reader : Reader} {contents : Text} {builder builder' : PolicyBuilder}
  {rule : RuleLine}

/-- One more call that adds no examples which fail. -/
theorem Loads.appendLine (h : Loads env reader contents builder)
    (hreads : ReadsBack reader contents rule)
    (hcall : applyCall env reader builder rule.call = .ok builder')
    (hhosts : builder'.hostExecutablesByName = builder.hostExecutablesByName)
    {validations : List PendingExampleValidation}
    (hpending : builder'.pendingExampleValidations =
      builder.pendingExampleValidations ++ validations)
    (hvalid : validations.forM (validateExamples env builder) = .ok ()) :
    Loads env reader (appendLine contents rule.render) builder' := by
  obtain ⟨calls, heval, hfold, hexamples⟩ := h
  refine ⟨calls ++ [rule.call], hreads calls heval, ?_, ?_⟩
  · rw [List.foldlM_append, hfold, ok_bind, List.foldlM_cons, hcall]
    rfl
  · have hsplit : (builder.pendingExampleValidations ++ validations).forM
        (validateExamples env builder) =
          (builder.pendingExampleValidations.forM (validateExamples env builder) >>= fun _ =>
            validations.forM (validateExamples env builder)) := List.forM_append
    rw [validateExamples_congr hhosts, hpending, hsplit, hexamples]
    exact hvalid

lemma mapM_parsePatternValue_str (tokens : List Text) :
    (tokens.map Value.str).mapM parsePatternValue = .ok (tokens.map .single) := by
  induction tokens with
  | nil => rfl
  | cons token tokens ih =>
    rw [List.map_cons, List.mapM_cons, ih]
    rfl

lemma applyCall_allowPrefix (env : Environment) (reader : Reader) (builder : PolicyBuilder)
    (first : Text) (rest : List Text) :
    applyCall env reader builder (RuleLine.allowPrefix (first :: rest)).call =
      .ok { builder with
        pendingExampleValidations :=
          builder.pendingExampleValidations ++ [⟨[allowRule first rest], [], []⟩]
        rulesByProgram := builder.rulesByProgram ++ [(first, allowRule first rest)] } := by
  have hdecision : Decision.parse "allow".toList = .ok .allow := by decide +kernel
  simp only [RuleLine.call, applyCall, prefixRule, parsePattern, Option.map_some, Option.getD_some,
    Option.getD_none, hdecision, mapM_parsePatternValue_str, ok_bind]
  rfl

/-- An appended amendment adds its rule to the file's policy. -/
theorem Loads.allowPrefix {first : Text} {rest : List Text} (h : Loads env reader contents builder)
    (hreads : ReadsBack reader contents (.allowPrefix (first :: rest))) :
    ∃ builder', Loads env reader
        (ExecPolicy.appendLine contents (RuleLine.allowPrefix (first :: rest)).render) builder' ∧
      builder'.build = builder.build.addRule (allowRule first rest) := by
  refine ⟨_, h.appendLine hreads (applyCall_allowPrefix env reader builder first rest) rfl rfl ?_,
    rfl⟩
  rfl

lemma parse_asPolicyString (protocol : NetworkRuleProtocol) :
    NetworkRuleProtocol.parse protocol.asPolicyString = .ok protocol := by
  cases protocol <;> decide +kernel

lemma parse_networkDecisionText (decision : Decision) :
    parseNetworkRuleDecision (networkDecisionText decision) = .ok decision := by
  cases decision <;> decide +kernel

/-- An appended network rule adds the rule to the file's policy, its host normalised once more. -/
theorem Loads.network {host host' : Text} {protocol : NetworkRuleProtocol} {decision : Decision}
    {justification : Option Text} (h : Loads env reader contents builder)
    (hreads : ReadsBack reader contents (.network host protocol decision justification))
    (hhost : normalizeNetworkRuleHost host = .ok host')
    (hjust : ¬ justification.any (fun raw => trim raw = []) = true) :
    ∃ builder', Loads env reader (ExecPolicy.appendLine contents
        (RuleLine.network host protocol decision justification).render) builder' ∧
      builder'.build = builder.build.pushNetworkRule
        ⟨host', protocol, decision, justification⟩ := by
  have hcall : applyCall env reader builder
      (RuleLine.network host protocol decision justification).call =
        .ok { builder with networkRules :=
          builder.networkRules ++ [⟨host', protocol, decision, justification⟩] } := by
    have hcheck : checkJustification justification = .ok justification := if_neg hjust
    simp only [RuleLine.call, applyCall, networkRule, parse_asPolicyString,
      parse_networkDecisionText, hcheck, hhost, ok_bind]
    rfl
  exact ⟨_, h.appendLine hreads hcall rfl (List.append_nil _).symm rfl, rfl⟩

end loads

/-! ### Runs of updates -/

variable (env : Environment) (reader : Reader) (manager : ExecPolicyManager)

/-- The memory decides as the policy that the file holds, and compiles the same domains. -/
def InStep : Prop :=
  ∃ policy, parsePolicy env reader manager.file = .ok policy ∧ (∀ cmd fallback options,
      (manager.policy.checkWithOptions env cmd fallback options).map Evaluation.decision =
        (policy.checkWithOptions env cmd fallback options).map Evaluation.decision) ∧
    manager.policy.compiledNetworkDomains = policy.compiledNetworkDomains

/-- The rule that an update writes, with the host as it is written. -/
def Update.ruleLine : Update → Option RuleLine
  | .amendment command => some (.allowPrefix command)
  | .networkRule host protocol decision justification =>
    (normalizeNetworkRuleHost host).toOption.map fun host =>
      .network host protocol decision justification

/-- The line of an update is read back where it is appended. -/
def Update.ReadBy (update : Update) : Prop :=
  ∀ rule, update.ruleLine = some rule → ReadsBack reader manager.file rule

/-- An amendment is left out by both sides or by none, or it adds no command; a network rule that
the file leaves out is settled, and one that it takes keeps its host when it is read back. -/
def Update.Matches : Update → Prop
  | .amendment command =>
    (alreadyAllowed env manager.policy command = true ↔
      (RuleLine.allowPrefix command).render ∈ lines manager.file) ∨
    manager.policy.exactMatches command ≠ []
  | .networkRule host protocol decision justification =>
    ∀ host', normalizeNetworkRuleHost host = .ok host' →
      if (RuleLine.network host' protocol decision justification).render ∈ lines manager.file then
        Settled manager.policy.compiledNetworkDomains host' decision
      else
        normalizeNetworkRuleHost host' = .ok host' ∨
          decision = .prompt ∧ ∃ again, normalizeNetworkRuleHost host' = .ok again

/-- The invariant of a run: the memory is like the policy that the file's calls build. -/
def Synced : Prop :=
  ∃ builder, Loads env reader manager.file builder ∧ manager.policy.Alike builder.build

section runs

variable {env : Environment} {reader : Reader} {manager manager' : ExecPolicyManager}

lemma synced_of_parsePolicy (h : parsePolicy env reader manager.file = .ok manager.policy) :
    Synced env reader manager := by
  obtain ⟨calls, builder, heval, hfold, hexamples, hbuild⟩ := parsePolicy_eq_ok_iff.mp h
  refine ⟨builder, ⟨calls, heval, hfold, hexamples⟩, ?_⟩
  rw [hbuild]
  exact ⟨fun _ => rfl, rfl, rfl⟩

lemma Synced.inStep (h : Synced env reader manager) : InStep env reader manager := by
  obtain ⟨builder, ⟨calls, heval, hfold, hexamples⟩, halike⟩ := h
  refine ⟨builder.build,
    parsePolicy_eq_ok_iff.mpr ⟨calls, builder, heval, hfold, hexamples, rfl⟩, ?_, halike.domains⟩
  intro cmd fallback options
  rw [Policy.decision_checkWithOptions, Policy.decision_checkWithOptions,
    Policy.decision_congr halike.exact_ halike.hosts]

/-- What a successful amendment does to the two sides. -/
theorem appendAmendmentAndUpdate_cases {command : List Text}
    (h : manager.appendAmendmentAndUpdate env command = .ok manager') :
    ∃ first rest, command = first :: rest ∧
      manager'.file = appendLockedLine manager.file (RuleLine.allowPrefix command).render ∧
      manager'.policy = if alreadyAllowed env manager.policy command then manager.policy
        else manager.policy.addRule (allowRule first rest) := by
  cases command with
  | nil => simp [ExecPolicyManager.appendAmendmentAndUpdate, blockingAppendAllowPrefixRule] at h
  | cons first rest =>
    refine ⟨first, rest, rfl, ?_⟩
    simp only [ExecPolicyManager.appendAmendmentAndUpdate, blockingAppendAllowPrefixRule,
      reduceCtorEq, if_false, Policy.addPrefixRule] at h
    split at h
    · rename_i hallowed
      cases h
      exact ⟨rfl, (if_pos hallowed).symm⟩
    · rename_i hallowed
      cases h
      exact ⟨rfl, (if_neg hallowed).symm⟩

variable {protocol : NetworkRuleProtocol} {justification : Option Text}

/-- What a successful network rule does to the two sides. -/
theorem appendNetworkRuleAndUpdate_cases {host : Text} {decision : Decision}
    (h : manager.appendNetworkRuleAndUpdate host protocol decision justification = .ok manager') :
    ∃ host', normalizeNetworkRuleHost host = .ok host' ∧
      ¬ justification.any (fun raw => trim raw = []) = true ∧
      manager'.file = appendLockedLine manager.file
        (RuleLine.network host' protocol decision justification).render ∧
      manager'.policy =
        manager.policy.pushNetworkRule ⟨host', protocol, decision, justification⟩ := by
  unfold ExecPolicyManager.appendNetworkRuleAndUpdate blockingAppendNetworkRule
    Policy.addNetworkRule at h
  cases hhost : normalizeNetworkRuleHost host with
  | error error => simp [hhost] at h
  | ok host' =>
    by_cases hjust : justification.any (fun raw => trim raw = []) = true
    · simp [hhost, hjust] at h
    · simp only [hhost, hjust, ok_bind, Bool.false_eq_true, if_false] at h
      cases h
      exact ⟨host', rfl, hjust, rfl, rfl⟩

lemma Synced.amendment {command : List Text} (h : Synced env reader manager)
    (hreads : Update.ReadBy reader manager (.amendment command))
    (hmatches : Update.Matches env manager (.amendment command))
    (hstep : manager.appendAmendmentAndUpdate env command = .ok manager') :
    Synced env reader manager' := by
  obtain ⟨builder, hloads, halike⟩ := h
  obtain ⟨first, rest, rfl, hfile, hpolicy⟩ := appendAmendmentAndUpdate_cases hstep
  obtain ⟨builder', hloads', hbuild⟩ := hloads.allowPrefix (hreads _ rfl)
  have hcovers : manager.policy.exactMatches (first :: rest) ≠ [] →
      manager.policy.Covers (allowRule first rest) := Policy.covers_of_exactMatches
  unfold Synced
  rw [hfile, hpolicy, appendLockedLine]
  by_cases hallowed : alreadyAllowed env manager.policy (first :: rest) = true
  · rw [if_pos hallowed]
    by_cases hline : (RuleLine.allowPrefix (first :: rest)).render ∈ lines manager.file
    · rw [if_pos hline]
      exact ⟨builder, hloads, halike⟩
    · rw [if_neg hline]
      have hmatched := hmatches.resolve_left fun hiff => hline (hiff.mp hallowed)
      refine ⟨builder', hloads', ?_⟩
      rw [hbuild]
      exact (halike.symm.addRule_left rfl (halike.covers (hcovers hmatched))).symm
  · rw [if_neg hallowed]
    by_cases hline : (RuleLine.allowPrefix (first :: rest)).render ∈ lines manager.file
    · rw [if_pos hline]
      have hmatched := hmatches.resolve_left fun hiff => hallowed (hiff.mpr hline)
      exact ⟨builder, hloads, halike.addRule_left rfl (hcovers hmatched)⟩
    · rw [if_neg hline]
      refine ⟨builder', hloads', ?_⟩
      rw [hbuild]
      exact halike.addRule _

lemma Synced.networkRule {host : Text} {decision : Decision} (h : Synced env reader manager)
    (hreads : Update.ReadBy reader manager (.networkRule host protocol decision justification))
    (hmatches : Update.Matches env manager (.networkRule host protocol decision justification))
    (hstep : manager.appendNetworkRuleAndUpdate host protocol decision justification =
      .ok manager') : Synced env reader manager' := by
  obtain ⟨builder, hloads, halike⟩ := h
  obtain ⟨host', hhost, hjust, hfile, hpolicy⟩ := appendNetworkRuleAndUpdate_cases hstep
  have hmatches := hmatches host' hhost
  have hreads := hreads (.network host' protocol decision justification)
    (by simp [Update.ruleLine, hhost])
  unfold Synced
  rw [hfile, hpolicy, appendLockedLine]
  by_cases hline : (RuleLine.network host' protocol decision justification).render ∈
      lines manager.file
  · rw [if_pos hline] at hmatches ⊢
    refine ⟨builder, hloads, halike.exact_, halike.hosts, ?_⟩
    rw [compiledNetworkDomains_push, ← halike.domains]
    exact compileNetworkRule_of_settled (separate_compiledNetworkDomains _) hmatches
  · rw [if_neg hline] at hmatches ⊢
    rcases hmatches with hsame | ⟨rfl, again, hagain⟩
    · obtain ⟨builder', hloads', hbuild⟩ := hloads.network hreads hsame hjust
      refine ⟨builder', hloads', ?_⟩
      rw [hbuild]
      refine ⟨halike.exact_, halike.hosts, ?_⟩
      rw [compiledNetworkDomains_push, compiledNetworkDomains_push, halike.domains]
    · obtain ⟨builder', hloads', hbuild⟩ := hloads.network hreads hagain hjust
      refine ⟨builder', hloads', ?_⟩
      rw [hbuild]
      refine ⟨halike.exact_, halike.hosts, ?_⟩
      rw [compiledNetworkDomains_push, compiledNetworkDomains_push, halike.domains]
      rfl

lemma Synced.update {update : Update} (h : Synced env reader manager)
    (hreads : update.ReadBy reader manager) (hmatches : update.Matches env manager)
    (hstep : manager.update env update = .ok manager') : Synced env reader manager' := by
  cases update with
  | amendment command => exact h.amendment hreads hmatches hstep
  | networkRule host protocol decision justification => exact h.networkRule hreads hmatches hstep

end runs

/-- From a policy loaded from the file, updates that leave their rules out on both sides alike keep
the memory in step with the file. -/
theorem inStep_of_run (env : Environment) (reader : Reader) {manager manager' : ExecPolicyManager}
    {updates : List Update} (hload : parsePolicy env reader manager.file = .ok manager.policy)
    (hreads : Along (ExecPolicyManager.update env) (fun manager update =>
      update.ReadBy reader manager) manager updates)
    (hmatches : Along (ExecPolicyManager.update env) (fun manager update =>
      update.Matches env manager) manager updates)
    (hrun : updates.foldlM (ExecPolicyManager.update env) manager = .ok manager') :
    InStep env reader manager' := by
  have hboth := hreads.and hmatches
  refine Synced.inStep (hboth.preserves ?_ (synced_of_parsePolicy hload) hrun)
  rintro manager update manager' ⟨hread, hmatch⟩ hsynced hstep
  exact hsynced.update hread hmatch hstep

/-- A reader of the files that the first of the given rules, or all of them, make. -/
def ruleReader (rules : List RuleLine) : Reader where
  eval := fun contents =>
    (rules.inits.find? fun written =>
      written.foldl (fun contents rule => appendLine contents rule.render) [] = contents).map
        (·.map RuleLine.call)
  shlexSplit := fun _ => none

lemma readsBack_ruleReader {rules : List RuleLine} {contents : Text} {rule : RuleLine}
    (written : List RuleLine)
    (h : rules.inits.find? (fun written =>
      written.foldl (fun contents rule => appendLine contents rule.render) [] = contents) =
        some written)
    (h' : rules.inits.find? (fun written =>
      written.foldl (fun contents rule => appendLine contents rule.render) [] =
        appendLine contents rule.render) = some (written ++ [rule])) :
    ReadsBack (ruleReader rules) contents rule := by
  intro calls hcalls
  have hcalls : some (written.map RuleLine.call) = some calls := by
    rw [← hcalls]
    simp only [ruleReader, h, Option.map_some]
  cases hcalls
  simp only [ruleReader, h', Option.map_some, List.map_append, List.map_cons, List.map_nil]

variable (decision : Decision)

/-- The rule of the runs below. -/
def ruleFor : NetworkRule := ⟨"a".toList, .https, decision, none⟩

/-- Its line. -/
def lineFor : RuleLine := .network "a".toList .https decision none

/-- Its update. -/
def updateFor : Update := .networkRule "a".toList .https decision none

lemma update_updateFor (manager : ExecPolicyManager) :
    ExecPolicyManager.update emptyEnvironment manager (updateFor decision) =
      .ok ⟨manager.policy.pushNetworkRule (ruleFor decision),
        appendLockedLine manager.file (lineFor decision).render⟩ := rfl

/-- A command is allowed, then a host, and then the host again: its line stands already. -/
theorem inStep_of_run_ls :
    let reader := ruleReader [.allowPrefix ["ls".toList], lineFor .allow, lineFor .allow]
    let updates := [.amendment ["ls".toList], updateFor .allow, updateFor .allow]
    ∃ manager', updates.foldlM (ExecPolicyManager.update emptyEnvironment) ⟨Policy.empty, []⟩ =
      .ok manager' ∧ InStep emptyEnvironment reader manager' := by
  intro reader updates
  let policy := Policy.empty.addRule (allowRule "ls".toList [])
  let policy₂ := policy.pushNetworkRule (ruleFor .allow)
  let file₁ := appendLine [] (RuleLine.allowPrefix ["ls".toList]).render
  let file₂ := appendLine file₁ (lineFor .allow).render
  have hallowed : alreadyAllowed emptyEnvironment Policy.empty ["ls".toList] = false := by
    decide +kernel
  have hstep₁ : ExecPolicyManager.update emptyEnvironment ⟨Policy.empty, []⟩
      (.amendment ["ls".toList]) = .ok ⟨policy, file₁⟩ := by
    rw [ExecPolicyManager.update, ExecPolicyManager.appendAmendmentAndUpdate,
      blockingAppendAllowPrefixRule, if_neg (List.cons_ne_nil _ _)]
    simp only [hallowed, Bool.false_eq_true, if_false]
    rfl
  have hstep₂ : ExecPolicyManager.update emptyEnvironment ⟨policy, file₁⟩ (updateFor .allow) =
      .ok ⟨policy₂, file₂⟩ := by
    rw [update_updateFor, appendLockedLine, if_neg (by decide +kernel)]
  have hstep₃ : ExecPolicyManager.update emptyEnvironment ⟨policy₂, file₂⟩ (updateFor .allow) =
      .ok ⟨policy₂.pushNetworkRule (ruleFor .allow), file₂⟩ := by
    rw [update_updateFor, appendLockedLine, if_pos (by decide +kernel)]
  have hrun : updates.foldlM (ExecPolicyManager.update emptyEnvironment) ⟨Policy.empty, []⟩ =
      .ok ⟨policy₂.pushNetworkRule (ruleFor .allow), file₂⟩ := by
    rw [List.foldlM_cons, hstep₁, ok_bind, List.foldlM_cons, hstep₂, ok_bind, List.foldlM_cons,
      hstep₃]
    rfl
  have hreads : Along (ExecPolicyManager.update emptyEnvironment) (fun manager update =>
      update.ReadBy reader manager) ⟨Policy.empty, []⟩ updates := by
    refine .cons_ok ?_ hstep₁ (.cons_ok ?_ hstep₂ (.cons_ok ?_ hstep₃ trivial))
    · rintro rule ⟨⟩
      exact readsBack_ruleReader [] (by decide +kernel) (by decide +kernel)
    · rintro rule ⟨⟩
      exact readsBack_ruleReader [.allowPrefix ["ls".toList]] (by decide +kernel)
        (by decide +kernel)
    · rintro rule ⟨⟩
      exact readsBack_ruleReader [.allowPrefix ["ls".toList], lineFor .allow] (by decide +kernel)
        (by decide +kernel)
  have hmatches : Along (ExecPolicyManager.update emptyEnvironment) (fun manager update =>
      update.Matches emptyEnvironment manager) ⟨Policy.empty, []⟩ updates := by
    have hhost : normalizeNetworkRuleHost "a".toList = .ok "a".toList := rfl
    refine .cons_ok ?_ hstep₁ (.cons_ok ?_ hstep₂ (.cons_ok ?_ hstep₃ trivial))
    · rw [Update.Matches, hallowed]
      exact Or.inl (iff_of_false Bool.false_ne_true (by decide +kernel))
    · intro host' hhost'
      obtain rfl := Except.ok.inj (hhost.symm.trans hhost')
      rw [if_neg (by decide +kernel)]
      exact .inl hhost
    · intro host' hhost'
      obtain rfl := Except.ok.inj (hhost.symm.trans hhost')
      rw [if_pos (by decide +kernel)]
      have hlast : policy₂.compiledNetworkDomains.1.getLast? = some "a".toList := by
        decide +kernel
      exact hlast
  exact ⟨_, hrun, inStep_of_run _ _ rfl hreads hmatches hrun⟩

/-- Allowed, denied and allowed again: the file leaves the third rule out. -/
theorem allow_again_left_out :
    ¬ ∀ (env : Environment) (reader : Reader) (manager manager' : ExecPolicyManager)
        (updates : List Update), parsePolicy env reader manager.file = .ok manager.policy →
      Along (ExecPolicyManager.update env) (fun manager update => update.ReadBy reader manager)
        manager updates →
      updates.foldlM (ExecPolicyManager.update env) manager = .ok manager' →
      InStep env reader manager' := by
  intro hclaim
  let file₁ := appendLine [] (lineFor .allow).render
  let file₂ := appendLine file₁ (lineFor .forbidden).render
  let reader := ruleReader [lineFor .allow, lineFor .forbidden, lineFor .allow]
  have hstep₁ : ExecPolicyManager.update emptyEnvironment ⟨Policy.empty, []⟩ (updateFor .allow) =
      .ok ⟨⟨[], [ruleFor .allow], fun _ => none⟩, file₁⟩ := by
    rw [update_updateFor, appendLockedLine, if_neg (by decide +kernel)]
    rfl
  have hstep₂ : ExecPolicyManager.update emptyEnvironment
      ⟨⟨[], [ruleFor .allow], fun _ => none⟩, file₁⟩ (updateFor .forbidden) =
        .ok ⟨⟨[], [ruleFor .allow, ruleFor .forbidden], fun _ => none⟩, file₂⟩ := by
    rw [update_updateFor, appendLockedLine, if_neg (by decide +kernel)]
    rfl
  have hstep₃ : ExecPolicyManager.update emptyEnvironment
      ⟨⟨[], [ruleFor .allow, ruleFor .forbidden], fun _ => none⟩, file₂⟩ (updateFor .allow) =
        .ok ⟨⟨[], [ruleFor .allow, ruleFor .forbidden, ruleFor .allow], fun _ => none⟩, file₂⟩ := by
    rw [update_updateFor, appendLockedLine, if_pos (by decide +kernel)]
    rfl
  have hreads : Along (ExecPolicyManager.update emptyEnvironment) (fun manager update =>
      update.ReadBy reader manager) ⟨Policy.empty, []⟩
        [updateFor .allow, updateFor .forbidden, updateFor .allow] := by
    refine .cons_ok ?_ hstep₁ (.cons_ok ?_ hstep₂ (.cons_ok ?_ hstep₃ trivial))
    · rintro rule ⟨⟩
      exact readsBack_ruleReader [] (by decide +kernel) (by decide +kernel)
    · rintro rule ⟨⟩
      exact readsBack_ruleReader [lineFor .allow] (by decide +kernel) (by decide +kernel)
    · rintro rule ⟨⟩
      exact readsBack_ruleReader [lineFor .allow, lineFor .forbidden] (by decide +kernel)
        (by decide +kernel)
  have hrun : [updateFor .allow, updateFor .forbidden, updateFor .allow].foldlM
      (ExecPolicyManager.update emptyEnvironment) ⟨Policy.empty, []⟩ =
        .ok ⟨⟨[], [ruleFor .allow, ruleFor .forbidden, ruleFor .allow], fun _ => none⟩, file₂⟩ := by
    rw [List.foldlM_cons, hstep₁, ok_bind, List.foldlM_cons, hstep₂, ok_bind, List.foldlM_cons,
      hstep₃]
    rfl
  obtain ⟨policy, hparse, -, hdomains⟩ := hclaim _ _ _ _ _ rfl hreads hrun
  have hdisk : (parsePolicy emptyEnvironment reader file₂).toOption.map
      Policy.compiledNetworkDomains = some ([], ["a".toList]) := by decide +kernel
  have hmemory : Policy.compiledNetworkDomains
      ⟨[], [ruleFor .allow, ruleFor .forbidden, ruleFor .allow], fun _ => none⟩ =
        (["a".toList], []) := by decide +kernel
  simp [hparse, toOption_ok, Option.map_some, ← hdomains, hmemory] at hdisk

end Codex.ExecPolicy
