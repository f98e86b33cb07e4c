import Codex.ExecPolicy.Policy
import Codex.Lib.LastWriter

/-!
# The domains of the network rules

`compiled_network_domains` of `execpolicy/src/policy.rs`: the allowed and the denied hosts of a
sequence of network rules. A rule that allows or forbids takes its host out of both lists and
appends it to one; a rule that asks is passed over.

* `compileNetworkRule_eq_record`: each list is that of the last writers of the rules;
* `compiledNetworkDomains_lastWriter`: a host stands where its last rule puts it, in the order of
  these rules.
-/

namespace Codex.ExecPolicy

open Codex.Lib

/-- What a rule says about its host, if it allows or forbids. -/
def NetworkRule.verdict (rule : NetworkRule) : Option Decision :=
  match rule.decision with
  | .allow => some .allow
  | .prompt => none
  | .forbidden => some .forbidden

/-- The rule at place `i` is the last that allows or forbids the host, and its decision is `d`. -/
def LastRule (rules : List NetworkRule) (host : Text) (i : ℕ) (d : Decision) : Prop :=
  (∃ rule, rules[i]? = some rule ∧ rule.host = host ∧ rule.decision = d ∧ d ≠ .prompt) ∧
    ∀ j rule, i < j → rules[j]? = some rule → rule.host = host → rule.decision = .prompt

variable {rules : List NetworkRule} {host : Text} {i : ℕ} {d : Decision}

lemma verdict_eq_some_iff {rule : NetworkRule} :
    rule.verdict = some d ↔ rule.decision = d ∧ d ≠ .prompt := by
  unfold NetworkRule.verdict
  cases rule.decision <;> cases d <;> simp

lemma verdict_eq_none_iff {rule : NetworkRule} : rule.verdict = none ↔ rule.decision = .prompt := by
  unfold NetworkRule.verdict
  cases rule.decision <;> simp

lemma lastRule_iff_decides :
    LastRule rules host i d ↔ Decides NetworkRule.host NetworkRule.verdict rules host i d := by
  unfold LastRule Decides
  simp only [verdict_eq_some_iff, verdict_eq_none_iff]

lemma compileNetworkRule_eq_record (domains : List Text × List Text) (rule : NetworkRule) :
    Policy.compileNetworkRule domains rule =
      (record NetworkRule.host NetworkRule.verdict .allow domains.1 rule,
        record NetworkRule.host NetworkRule.verdict .forbidden domains.2 rule) := by
  unfold Policy.compileNetworkRule record NetworkRule.verdict Policy.upsertDomain
  cases rule.decision <;> rfl

lemma foldl_compileNetworkRule (rules : List NetworkRule) (domains : List Text × List Text) :
    rules.foldl Policy.compileNetworkRule domains =
      (rules.foldl (record NetworkRule.host NetworkRule.verdict .allow) domains.1,
        rules.foldl (record NetworkRule.host NetworkRule.verdict .forbidden) domains.2) := by
  induction rules generalizing domains with
  | nil => rfl
  | cons rule rules ih =>
    rw [List.foldl_cons, compileNetworkRule_eq_record, ih]
    rfl

lemma registers_allowed (policy : Policy) :
    Registers NetworkRule.host NetworkRule.verdict policy.networkRules .allow
      policy.compiledNetworkDomains.1 := by
  rw [Policy.compiledNetworkDomains, foldl_compileNetworkRule]
  exact registers_foldl policy.networkRules

lemma registers_denied (policy : Policy) :
    Registers NetworkRule.host NetworkRule.verdict policy.networkRules .forbidden
      policy.compiledNetworkDomains.2 := by
  rw [Policy.compiledNetworkDomains, foldl_compileNetworkRule]
  exact registers_foldl policy.networkRules

/-- **The last rule decides.** A host is allowed exactly when the last rule that allows or forbids
it allows it, and denied exactly when that rule forbids it. No host stands twice, and the hosts of
either list stand in the order of the rules that decide them. -/
theorem compiledNetworkDomains_lastWriter (policy : Policy) :
    (∀ host, host ∈ policy.compiledNetworkDomains.1 ↔
        ∃ i, LastRule policy.networkRules host i .allow) ∧
      (∀ host, host ∈ policy.compiledNetworkDomains.2 ↔
        ∃ i, LastRule policy.networkRules host i .forbidden) ∧
      (∀ host ∈ policy.compiledNetworkDomains.1, host ∉ policy.compiledNetworkDomains.2) ∧
      policy.compiledNetworkDomains.1.Nodup ∧ policy.compiledNetworkDomains.2.Nodup ∧
      (policy.compiledNetworkDomains.1.Pairwise fun host host' =>
        ∃ i j, i < j ∧ LastRule policy.networkRules host i .allow ∧
          LastRule policy.networkRules host' j .allow) ∧
      policy.compiledNetworkDomains.2.Pairwise fun host host' =>
        ∃ i j, i < j ∧ LastRule policy.networkRules host i .forbidden ∧
          LastRule policy.networkRules host' j .forbidden := by
  have hallowed := registers_allowed policy
  have hdenied := registers_denied policy
  simp only [lastRule_iff_decides]
  exact ⟨hallowed.mem_iff, hdenied.mem_iff, hallowed.disjoint hdenied (by decide), hallowed.nodup,
    hdenied.nodup, hallowed.ordered, hdenied.ordered⟩

end Codex.ExecPolicy
