import Codex.Protocol.Models

/-!
# Contextual fragments

`context-fragments/src/fragment.rs`, `core/src/context/*.rs` and `core/src/event_mapping.rs`: which
messages of the history are context that the session injected, not instructions of the user. A
fragment is recognised by the markers around it; the markers are ASCII, so comparing the first
`marker.len()` bytes of a text is comparing as many of its characters.

`ContextEnv` holds what the code calls outside: two deserialisers, and the truncation of texts and
tool outputs to the token budget of the model.
-/

namespace Codex.Context

open Codex.Lib Codex.Protocol

/-- What the functions over the history call. `hookPromptRunId` is `from_xml_str::<HookPromptXml>`,
reduced to the `hook_run_id` of a text that parses; `parsesAsInterAgentCommunication` is
`serde_json::from_str::<InterAgentCommunication>(..).is_ok()`. -/
structure ContextEnv where
  hookPromptRunId : Text → Option Text
  parsesAsInterAgentCommunication : Text → Bool
  truncateText : Text → ℕ → Text
  truncateFunctionOutputPayload : FunctionCallOutputPayload → FunctionCallOutputPayload

/-! ### Marked text -/

/-- `trimmed.get(..marker.len()).is_some_and(|c| c.eq_ignore_ascii_case(marker))` -/
def startsWithMarker (trimmed marker : Text) : Bool :=
  eqIgnoreAsciiCase (trimmed.take marker.length) marker

def matchesMarkedText (startMarker endMarker text : Text) : Bool :=
  if startMarker.isEmpty || endMarker.isEmpty then false
  else
    let trimmed := trimStart text
    let startsWithStart := startsWithMarker trimmed startMarker
    let trimmed := trimEnd trimmed
    startsWithStart &&
      eqIgnoreAsciiCase (trimmed.drop (trimmed.length - endMarker.length)) endMarker

/-! ### The registered fragments -/

/-- `UserInstructions::matches_text` -/
def userInstructionsMatchesText : Text → Bool :=
  matchesMarkedText "# AGENTS.md instructions".toList "</INSTRUCTIONS>".toList

/-- `EnvironmentsState::matches_text` -/
def environmentsStateMatchesText : Text → Bool :=
  matchesMarkedText "<environment_context>".toList "</environment_context>".toList

variable (text : Text)

/-- `AdditionalContextUserFragment::matches_text` -/
def additionalContextUserFragmentMatchesText : Bool :=
  match stripPrefix "<external_".toList (trim text) with
  | none => false
  | some rest =>
    match splitOnce ">".toList rest with
    | none => false
    | some (key, valueAndClose) =>
      endsWith valueAndClose ("</external_".toList ++ key ++ ">".toList)

/-- `SkillInstructions::matches_text` -/
def skillInstructionsMatchesText : Text → Bool :=
  matchesMarkedText "<skill>".toList "</skill>".toList

/-- `UserShellCommand::matches_text` -/
def userShellCommandMatchesText : Text → Bool :=
  matchesMarkedText "<user_shell_command>".toList "</user_shell_command>".toList

/-- `TurnAborted::matches_text` -/
def turnAbortedMatchesText : Text → Bool :=
  matchesMarkedText "<turn_aborted>".toList "</turn_aborted>".toList

/-- `SubagentNotification::matches_text` -/
def subagentNotificationMatchesText : Text → Bool :=
  matchesMarkedText "<subagent_notification>".toList "</subagent_notification>".toList

def isValidSource : Text → Bool
  | [] => false
  | first :: chars => first.isLower && chars.all fun ch => ch.isLower || ch.isDigit || ch == '_'

/-- `InternalModelContextFragment::matches_text`, with `matches_legacy_goal_context` -/
def internalModelContextFragmentMatchesText : Bool :=
  let trimmed := trim text
  if startsWith trimmed "<goal_context>".toList && endsWith trimmed "</goal_context>".toList then
    true
  else
    match stripPrefix "<codex_internal_context".toList trimmed with
    | none => false
    | some rest =>
      match stripPrefix " source=\"".toList rest with
      | none => false
      | some rest =>
        match splitOnce "\">".toList rest with
        | none => false
        | some (source, bodyAndClose) =>
          isValidSource source && endsWith bodyAndClose "</codex_internal_context>".toList

/-- `RecommendedPluginsInstructions::matches_text` -/
def recommendedPluginsInstructionsMatchesText : Text → Bool :=
  matchesMarkedText "<recommended_plugins>".toList "</recommended_plugins>".toList

/-- `LegacyUnifiedExecProcessLimitWarning::matches_text` -/
def legacyUnifiedExecProcessLimitWarningMatchesText : Bool :=
  startsWith (trim text)
    "Warning: The maximum number of unified exec processes you can keep open is".toList

/-- `LegacyApplyPatchExecCommandWarning::matches_text` -/
def legacyApplyPatchExecCommandWarningMatchesText : Bool :=
  startsWith (trim text) "Warning: apply_patch was requested via ".toList &&
    endsWith (trim text) "Use the apply_patch tool instead of exec_command.".toList

/-- `LegacyModelMismatchWarning::matches_text` -/
def legacyModelMismatchWarningMatchesText : Bool :=
  startsWith (trim text)
    "Warning: Your account was flagged for potentially high-risk cyber activity".toList

def contextualUserFragments : List (Text → Bool) :=
  [userInstructionsMatchesText, environmentsStateMatchesText,
    additionalContextUserFragmentMatchesText, skillInstructionsMatchesText,
    userShellCommandMatchesText, turnAbortedMatchesText, subagentNotificationMatchesText,
    internalModelContextFragmentMatchesText, recommendedPluginsInstructionsMatchesText,
    legacyUnifiedExecProcessLimitWarningMatchesText,
    legacyApplyPatchExecCommandWarningMatchesText, legacyModelMismatchWarningMatchesText]

/-! ### Contextual messages -/

def isStandardContextualUserText : Bool :=
  contextualUserFragments.any fun fragment => fragment text

variable (env : ContextEnv)

/-- `parse_hook_prompt_fragment(text).is_some()` -/
def isHookPromptFragment (text : Text) : Bool :=
  match env.hookPromptRunId (trim text) with
  | none => false
  | some hookRunId => !(trim hookRunId).isEmpty

def isContextualUserFragment : ContentItem → Bool
  | .inputText text => isHookPromptFragment env text || isStandardContextualUserText text
  | _ => false

def isContextualUserMessageContent (message : List ContentItem) : Bool :=
  message.any (isContextualUserFragment env)

/-- `parse_visible_hook_prompt_message(..).is_some()` -/
def isVisibleHookPromptMessage (content : List ContentItem) : Bool :=
  content.all (isContextualUserFragment env) &&
    content.any fun
      | .inputText text => isHookPromptFragment env text
      | _ => false

def contextualDeveloperPrefixes : List Text :=
  ["<permissions instructions>".toList, "<model_switch>".toList, "<collaboration_mode>".toList,
    "<multi_agent_mode>".toList, "<realtime_conversation>".toList,
    "<skills_instructions>".toList, "<personality_spec>".toList, "<token_budget>".toList,
    "<context_window>".toList, "<context_window_guidance>".toList, "<rollout_budget>".toList]

def isContextualDevFragment : ContentItem → Bool
  | .inputText text =>
    contextualDeveloperPrefixes.any fun marker => startsWithMarker (trimStart text) marker
  | _ => false

variable (message : List ContentItem)

def isContextualDevMessageContent : Bool :=
  message.any isContextualDevFragment

def hasNonContextualDevMessageContent : Bool :=
  message.any fun contentItem => !isContextualDevFragment contentItem

end Codex.Context
