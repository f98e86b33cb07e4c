import Codex.Lib.SortByKey
import Codex.Lib.Text
import Mathlib.Data.Char

/-!
# Callable names of MCP tools

`codex-mcp/src/tools.rs`: the names under which the model sees MCP tools. They are sanitised, tools
that would share a namespace or a name get the hash of their identity appended, and a name that is
too long or taken is cut to make room for such a hash. `tools/src/code_mode.rs` spells the same
tools in another way.

SHA-1 is a parameter. A text is as long as it has bytes wherever its length is read, since
sanitised texts are ASCII. The counter of attempts is a number without an upper bound.
-/

namespace Codex.Mcp

open Codex.Lib

/-! ### Tools -/

/-- `ToolInfo`; `toolName` is `tool.name`, and `rest` the other fields -/
structure ToolInfo (Rest : Type) where
  serverName : Text
  callableNamespace : Text
  connectorId : Option Text
  callableName : Text
  toolName : Text
  rest : Rest
  deriving DecidableEq

structure ToolName where
  nameSpace : Option Text
  name : Text
  deriving DecidableEq

/-- `sha1_hex` -/
structure Sha1 where
  hex : Text → Text
  length_hex : ∀ s, (hex s).length = 40
  digits_hex : ∀ s, ∀ c ∈ hex s, c.isDigit = true ∨ c ∈ "abcdef".toList

variable {Rest : Type} (tool : ToolInfo Rest)

def ToolInfo.rawNamespaceIdentity : Text :=
  tool.serverName ++ '\x00' :: tool.callableNamespace ++ '\x00' :: tool.connectorId.getD []

def ToolInfo.rawToolIdentity : Text :=
  tool.rawNamespaceIdentity ++ '\x00' :: tool.callableName ++ '\x00' :: tool.toolName

def ToolInfo.canonicalToolName : ToolName :=
  ⟨some tool.callableNamespace, tool.callableName⟩

/-! ### Names -/

def legacyMcpToolNamePrefix : Text := "mcp__".toList

def mcpToolNameDelimiter : Text := "__".toList

def maxToolNameLength : ℕ := 64

def callableNameHashLen : ℕ := 12

/-- A character that a name may have. -/
def isNameChar (c : Char) : Bool := c.isAlphanum || c = '_'

def sanitizeResponsesApiToolName (name : Text) : Text :=
  let sanitized := name.map fun c => if isNameChar c then c else '_'
  if sanitized = [] then ['_'] else sanitized

def callableNamespaceWithPrefix (ns : Text) (prefixMcpToolNames : Bool) : Text :=
  if !prefixMcpToolNames || startsWith ns legacyMcpToolNamePrefix then ns
  else legacyMcpToolNamePrefix ++ ns

variable (sha1 : Sha1) (rawIdentity : Text)

/-- The digits of the hash that names get. -/
def hashDigits : Text :=
  (sha1.hex rawIdentity).take callableNameHashLen

def callableNameHashSuffix : Text :=
  '_' :: hashDigits sha1 rawIdentity

def appendHashSuffix (value rawIdentity : Text) : Text :=
  value ++ callableNameHashSuffix sha1 rawIdentity

def appendNamespaceHashSuffix (ns rawIdentity : Text) : Text :=
  if endsWith ns mcpToolNameDelimiter then
    ns.take (ns.length - mcpToolNameDelimiter.length) ++ callableNameHashSuffix sha1 rawIdentity ++
      mcpToolNameDelimiter
  else appendHashSuffix sha1 ns rawIdentity

def fitCallablePartsWithHash (ns toolName rawIdentity : Text) (reservedLen : ℕ) : Text × Text :=
  let suffix := callableNameHashSuffix sha1 rawIdentity
  let maxToolLen := maxToolNameLength - (ns.length + reservedLen)
  if suffix.length ≤ maxToolLen then
    (ns, toolName.take (maxToolLen - suffix.length) ++ suffix)
  else (ns.take (maxToolNameLength - (suffix.length + reservedLen)), suffix)

def hashInput (attempt : ℕ) : Text :=
  if attempt = 0 then rawIdentity else rawIdentity ++ '\x00' :: Nat.toDigits 10 attempt

/-- `unique_callable_parts`; one more attempt than there are used names is enough -/
def uniqueCallableParts (ns toolName rawIdentity : Text) (usedNames : List Text)
    (reservedLen : ℕ) : Option (Text × Text) :=
  if (ns ++ toolName).length + reservedLen ≤ maxToolNameLength ∧ ns ++ toolName ∉ usedNames then
    some (ns, toolName)
  else
    ((List.range (usedNames.length + 1)).map fun attempt =>
      fitCallablePartsWithHash sha1 ns toolName (hashInput rawIdentity attempt) reservedLen).find?
      fun parts => parts.1 ++ parts.2 ∉ usedNames

/-! ### Candidates -/

structure CallableToolCandidate (Rest : Type) where
  tool : ToolInfo Rest
  rawNamespaceIdentity : Text
  rawToolIdentity : Text
  callableNamespace : Text
  callableName : Text

/-- The candidate of a tool. -/
def ToolInfo.candidate (prefixMcpToolNames : Bool) : CallableToolCandidate Rest where
  tool := tool
  rawNamespaceIdentity := tool.rawNamespaceIdentity
  rawToolIdentity := tool.rawToolIdentity
  callableNamespace :=
    callableNamespaceWithPrefix (sanitizeResponsesApiToolName tool.callableNamespace)
      prefixMcpToolNames
  callableName := sanitizeResponsesApiToolName tool.callableName

/-- The first loop of `normalize_tools_for_model_with_prefix`, with `seen_raw_names` -/
def collectCandidates (prefixMcpToolNames : Bool) :
    List Text → List (ToolInfo Rest) → List (CallableToolCandidate Rest)
  | _, [] => []
  | seenRawNames, tool :: tools =>
    if tool.rawToolIdentity ∈ seenRawNames then
      collectCandidates prefixMcpToolNames seenRawNames tools
    else
      tool.candidate prefixMcpToolNames ::
        collectCandidates prefixMcpToolNames (tool.rawToolIdentity :: seenRawNames) tools

variable (candidates : List (CallableToolCandidate Rest))

/-- `colliding_namespaces` -/
def collidingNamespace (ns : Text) : Bool :=
  1 < ((candidates.filter (·.callableNamespace = ns)).map (·.rawNamespaceIdentity)).dedup.length

/-- The body of the loop after `colliding_namespaces` -/
def hashNamespace (candidates : List (CallableToolCandidate Rest))
    (candidate : CallableToolCandidate Rest) : CallableToolCandidate Rest :=
  if collidingNamespace candidates candidate.callableNamespace then
    { candidate with
      callableNamespace :=
        appendNamespaceHashSuffix sha1 candidate.callableNamespace candidate.rawNamespaceIdentity }
  else candidate

/-- The loop after `colliding_namespaces` -/
def hashNamespaces (candidates : List (CallableToolCandidate Rest)) :
    List (CallableToolCandidate Rest) :=
  candidates.map (hashNamespace sha1 candidates)

/-- `colliding_tools` -/
def collidingTool (ns name : Text) : Bool :=
  1 < ((candidates.filter fun candidate =>
    candidate.callableNamespace = ns ∧ candidate.callableName = name).map
      (·.rawToolIdentity)).dedup.length

/-- The body of the loop after `colliding_tools` -/
def hashTool (candidates : List (CallableToolCandidate Rest))
    (candidate : CallableToolCandidate Rest) : CallableToolCandidate Rest :=
  if collidingTool candidates candidate.callableNamespace candidate.callableName then
    { candidate with
      callableName := appendHashSuffix sha1 candidate.callableName candidate.rawToolIdentity }
  else candidate

/-- The loop after `colliding_tools` -/
def hashTools (candidates : List (CallableToolCandidate Rest)) :
    List (CallableToolCandidate Rest) :=
  candidates.map (hashTool sha1 candidates)

variable (tools : List (ToolInfo Rest)) (prefixMcpToolNames : Bool)

/-- The candidates with the hashes that collisions give them. -/
def hashedCandidates : List (CallableToolCandidate Rest) :=
  hashTools sha1 (hashNamespaces sha1 (collectCandidates prefixMcpToolNames [] tools))

/-- The tool with the names it is called by. -/
def ToolInfo.withParts (parts : Text × Text) : ToolInfo Rest :=
  { tool with callableNamespace := parts.1, callableName := parts.2 }

/-- The last loop of `normalize_tools_for_model_with_prefix` -/
def assignNames (sha1 : Sha1) :
    List Text → List (CallableToolCandidate Rest) → Option (List (ToolInfo Rest))
  | _, [] => some []
  | usedNames, candidate :: candidates => do
    let parts ← uniqueCallableParts sha1 candidate.callableNamespace candidate.callableName
      candidate.rawToolIdentity usedNames mcpToolNameDelimiter.length
    let modelTools ← assignNames sha1 ((parts.1 ++ parts.2) :: usedNames) candidates
    return candidate.tool.withParts parts :: modelTools

def normalizeToolsForModelWithPrefix : Option (List (ToolInfo Rest)) :=
  assignNames sha1 []
    (sortByKey (·.rawToolIdentity) (hashedCandidates sha1 tools prefixMcpToolNames))

/-! ### Code mode -/

def codeModeNameForToolName (toolName : ToolName) : Text :=
  match toolName.nameSpace with
  | some ns =>
    if ns.getLast? = some '_' ∨ toolName.name.head? = some '_' then ns ++ toolName.name
    else ns ++ "__".toList ++ toolName.name
  | none => toolName.name

/-- `ToolSpec`, the names that code mode reads -/
inductive ToolSpec where
  | function (name : Text)
  | freeform (name : Text)
  | nameSpace (name : Text) (tools : List Text)
  /-- image generation, tool search, web search -/
  | other

/-- `CodeModeToolDefinition`, its names -/
structure CodeModeToolDefinition where
  name : Text
  toolName : ToolName

def codeModeToolDefinitionsForSpec : ToolSpec → List CodeModeToolDefinition
  | .function name | .freeform name => [⟨name, none, name⟩]
  | .nameSpace ns tools => tools.map fun name =>
    ⟨codeModeNameForToolName ⟨some ns, name⟩, some ns, name⟩
  | .other => []

def isCodeModeNestedTool (toolName : Text) : Bool :=
  toolName ≠ "exec".toList && toolName ≠ "wait".toList

/-- `collect_code_mode_tool_definitions`, without the descriptions -/
def collectCodeModeToolDefinitions (specs : List ToolSpec) : List CodeModeToolDefinition :=
  dedupByKey (·.name) (sortByKey (·.name)
    ((specs.flatMap codeModeToolDefinitionsForSpec).filter (isCodeModeNestedTool ·.name)))

end Codex.Mcp
