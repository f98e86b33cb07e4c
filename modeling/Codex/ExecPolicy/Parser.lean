import Codex.ExecPolicy.Policy
import Codex.Lib.Result

/-!
# Reading policies

`execpolicy/src/parser.rs`: a policy file is a Starlark module that calls `prefix_rule`,
`network_rule` and `host_executable`. Evaluating the module is the reader's work; what the calls do
to the policy under construction is below.
-/

namespace Codex.ExecPolicy

open Codex.Lib
open Codex.Permissions (AbsolutePathBuf Environment fromAbsolutePath components isAbsolute)

/-! ### Calls -/

/-- A Starlark value, as far as the builtins look at it. -/
inductive Value where
  | str (s : Text)
  | list (items : List Value)
  | other (typeName : Text)

def Value.getType : Value → Text
  | .str _ => "string".toList
  | .list _ => "list".toList
  | .other typeName => typeName

/-- The arguments of the functions of `policy_builtins` -/
inductive BuiltinCall where
  | prefixRule (pattern : List Value) (decision : Option Text) (matching : Option (List Value))
      (notMatching : Option (List Value)) (justification : Option Text)
  | networkRule (host protocol decision : Text) (justification : Option Text)
  | hostExecutable (name : Text) (paths : List Value)

/-- The Starlark evaluator and the shell splitter. -/
structure Reader where
  /-- the calls that evaluating a module makes, in their order, absent when it fails -/
  eval : Text → Option (List BuiltinCall)
  /-- `shlex::split` -/
  shlexSplit : Text → Option (List Text)

structure PendingExampleValidation where
  rules : List PrefixRule
  matching : List (List Text)
  notMatching : List (List Text)

structure PolicyBuilder where
  rulesByProgram : List (Text × PrefixRule)
  networkRules : List NetworkRule
  hostExecutablesByName : Text → Option (List AbsolutePathBuf)
  pendingExampleValidations : List PendingExampleValidation

namespace PolicyBuilder

def new : PolicyBuilder := ⟨[], [], fun _ => none, []⟩

def build (builder : PolicyBuilder) : Policy :=
  ⟨builder.rulesByProgram, builder.networkRules, builder.hostExecutablesByName⟩

end PolicyBuilder

/-! ### Arguments -/

/-- The closure that unpacks a token of a list, with the error's text -/
def unpackToken (error : Text → Error) (message : Text) (value : Value) : Except Error Text :=
  match value with
  | .str s => .ok s
  | value => .error (error (message ++ " (got ".toList ++ value.getType ++ [')']))

/-- `parse_pattern_token` -/
def parsePatternValue : Value → Except Error PatternToken
  | .str s => .ok (.single s)
  | .list items => do
      let tokens ← items.mapM
        (unpackToken .invalidPattern "pattern alternative must be a string".toList)
      match tokens with
      | [] => .error (.invalidPattern "pattern alternatives cannot be empty".toList)
      | [single] => .ok (.single single)
      | tokens => .ok (.alts tokens)
  | .other typeName =>
    .error (.invalidPattern ("pattern element must be a string or list of strings (got ".toList ++
      typeName ++ [')']))

def parsePattern (pattern : List Value) : Except Error (List PatternToken) := do
  let tokens ← pattern.mapM parsePatternValue
  if tokens = [] then .error (.invalidPattern "pattern cannot be empty".toList) else .ok tokens

def parseExample (reader : Reader) : Value → Except Error (List Text)
  | .str raw =>
    match reader.shlexSplit raw with
    | none => .error (.invalidExample "example string has invalid shell syntax".toList)
    | some [] => .error (.invalidExample "example cannot be an empty string".toList)
    | some tokens => .ok tokens
  | .list items => do
      let tokens ← items.mapM (unpackToken .invalidExample "example tokens must be strings".toList)
      if tokens = [] then .error (.invalidExample "example cannot be an empty list".toList)
      else .ok tokens
  | .other typeName =>
    .error (.invalidExample ("example must be a string or list of strings (got ".toList ++
      typeName ++ [')']))

def parseNetworkRuleDecision (raw : Text) : Except Error Decision :=
  if raw = "deny".toList then .ok .forbidden else Decision.parse raw

/-- The check of `justification` in the builtins -/
def checkJustification (justification : Option Text) : Except Error (Option Text) :=
  if justification.any fun raw => trim raw = [] then
    .error (.invalidRule "justification cannot be empty".toList)
  else .ok justification

def validateHostExecutableName (name : Text) : Except Error Unit :=
  if name = [] then .error (.invalidRule "host_executable name cannot be empty".toList)
  else if components name ≠ [.normal name] then
    .error (.invalidRule ("host_executable name must be a bare executable name (got ".toList ++
      name ++ [')']))
  else .ok ()

variable (env : Environment)

/-- The body of the loop of `host_executable` -/
def parseHostPath (name : Text) (parsedPaths : List AbsolutePathBuf)
    (value : Value) : Except Error (List AbsolutePathBuf) := do
  let raw ← unpackToken .invalidRule "host_executable paths must be strings".toList value
  if isAbsolute (components raw) = false then
    .error (.invalidRule ("host_executable paths must be absolute (got ".toList ++ raw ++ [')']))
  else
    match fromAbsolutePath env (components raw) with
    | none => .error (.invalidRule ("invalid absolute path `".toList ++ raw ++ ['`']))
    | some path =>
      if executablePathLookupKey path ≠ some name then
        .error (.invalidRule ("host_executable path `".toList ++ raw ++
          "` must have basename `".toList ++ name ++ ['`']))
      else if path ∈ parsedPaths then .ok parsedPaths
      else .ok (parsedPaths ++ [path])

/-! ### Builtins -/

def prefixRule (reader : Reader) (builder : PolicyBuilder) (pattern : List Value)
    (decision : Option Text) (matching notMatching : Option (List Value))
    (justification : Option Text) : Except Error PolicyBuilder := do
  let decision ← (decision.map Decision.parse).getD (.ok .allow)
  let justification ← checkJustification justification
  let patternTokens ← parsePattern pattern
  let matching ← (matching.getD []).mapM (parseExample reader)
  let notMatching ← (notMatching.getD []).mapM (parseExample reader)
  match patternTokens with
  | [] => .error (.invalidPattern "pattern cannot be empty".toList)
  | firstToken :: rest =>
    let rules := firstToken.alternatives.map fun head =>
      (⟨⟨head, rest⟩, decision, justification⟩ : PrefixRule)
    return { builder with
      pendingExampleValidations :=
        builder.pendingExampleValidations ++ [⟨rules, matching, notMatching⟩]
      rulesByProgram :=
        builder.rulesByProgram ++ rules.map fun rule => (rule.pattern.first, rule) }

variable (builder : PolicyBuilder)

def networkRule (host protocol decision : Text)
    (justification : Option Text) : Except Error PolicyBuilder := do
  let protocol ← NetworkRuleProtocol.parse protocol
  let decision ← parseNetworkRuleDecision decision
  let justification ← checkJustification justification
  let host ← normalizeNetworkRuleHost host
  return { builder with
    networkRules := builder.networkRules ++ [⟨host, protocol, decision, justification⟩] }

def hostExecutable (builder : PolicyBuilder) (name : Text)
    (paths : List Value) : Except Error PolicyBuilder := do
  validateHostExecutableName name
  let parsedPaths ← paths.foldlM (parseHostPath env name) []
  return { builder with
    hostExecutablesByName := fun key =>
      if key = name then some parsedPaths else builder.hostExecutablesByName key }

/-- What a call does to the policy under construction. -/
def applyCall (reader : Reader) (builder : PolicyBuilder) :
    BuiltinCall → Except Error PolicyBuilder
  | .prefixRule pattern decision matching notMatching justification =>
    prefixRule reader builder pattern decision matching notMatching justification
  | .networkRule host protocol decision justification =>
    networkRule builder host protocol decision justification
  | .hostExecutable name paths => hostExecutable env builder name paths

/-! ### Examples and files -/

/-- The policy of one validation in `validate_pending_examples_from` -/
def validationPolicy (validation : PendingExampleValidation) : Policy :=
  ⟨validation.rules.map fun rule => (rule.pattern.first, rule), [], builder.hostExecutablesByName⟩

def validateNotMatchExamples (policy : Policy)
    (notMatching : List (List Text)) : Except Error Unit :=
  match notMatching.find? fun example_ =>
      policy.matchesForCommandWithOptions env example_ none ⟨true⟩ ≠ [] with
  | some example_ => .error (.exampleDidMatch example_)
  | none => .ok ()

def validateMatchExamples (policy : Policy) (matching : List (List Text)) : Except Error Unit :=
  let unmatchedExamples := matching.filter fun example_ =>
    policy.matchesForCommandWithOptions env example_ none ⟨true⟩ = []
  if unmatchedExamples = [] then .ok () else .error (.exampleDidNotMatch unmatchedExamples)

/-- The body of the loop of `validate_pending_examples_from` -/
def validateExamples (builder : PolicyBuilder)
    (validation : PendingExampleValidation) : Except Error Unit := do
  let policy := validationPolicy builder validation
  validateNotMatchExamples env policy validation.notMatching
  validateMatchExamples env policy validation.matching

/-- `PolicyParser::parse` of one file and `PolicyParser::build` -/
def parsePolicy (reader : Reader) (contents : Text) : Except Error Policy :=
  match reader.eval contents with
  | none => .error .starlark
  | some calls => do
      let builder ← calls.foldlM (applyCall env reader) PolicyBuilder.new
      builder.pendingExampleValidations.forM (validateExamples env builder)
      return builder.build

/-! ### What a file builds -/

variable {env : Environment} {reader : Reader} {builder builder' : PolicyBuilder}

lemma parsePolicy_eq_ok_iff {contents : Text} {policy : Policy} :
    parsePolicy env reader contents = .ok policy ↔
      ∃ calls builder, reader.eval contents = some calls ∧
        calls.foldlM (applyCall env reader) PolicyBuilder.new = .ok builder ∧
        builder.pendingExampleValidations.forM (validateExamples env builder) = .ok () ∧
        builder.build = policy := by
  unfold parsePolicy
  cases reader.eval contents with
  | none => simp
  | some calls =>
    simp only [Option.some.injEq, bind_eq_ok, pure_eq_ok, Except.ok.injEq]
    constructor
    · rintro ⟨builder, hfold, ⟨⟩, hexamples, hbuild⟩
      exact ⟨calls, builder, rfl, hfold, hexamples, hbuild⟩
    · rintro ⟨_, builder, rfl, hfold, hexamples, hbuild⟩
      exact ⟨builder, hfold, (), hexamples, hbuild⟩

/-- The example checks look only at the listed paths of a policy under construction. -/
theorem validateExamples_congr
    (h : builder'.hostExecutablesByName = builder.hostExecutablesByName) :
    validateExamples env builder' = validateExamples env builder := by
  funext validation
  unfold validateExamples validationPolicy
  rw [h]

end Codex.ExecPolicy
