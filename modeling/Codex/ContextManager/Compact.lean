import Codex.Context.Fragments

/-!
# Rebuilding a compacted history

`collect_user_messages` and `build_compacted_history` of `core/src/compact.rs`, with the parts of
`event_mapping.rs` they use: the newest user messages that fit the token limit, in order, and the
summary after them. The replay of a rollout falls back on it for a compaction record that carries no
replacement history.
-/

namespace Codex.ContextManager

open Codex.Lib Codex.Protocol Codex.Context

variable {Value : Type}

/-! ### The text of a user message -/

variable (text : Text)

/-- `is_image_open_tag_text` or `is_local_image_open_tag_text` -/
def isAnyImageOpenTagText : Bool :=
  (match stripPrefix "<image name=".toList text with
    | some rest => endsWith rest ">".toList
    | none => false) ||
  text == "<image>".toList

/-- `is_image_close_tag_text`, which is also `is_local_image_close_tag_text` -/
def isImageCloseTagText : Bool := text == "</image>".toList

/-- `matches!(.., Some(ContentItem::InputImage { .. }))` -/
def isInputImage? : Option ContentItem → Bool
  | some (.inputImage _ _) => true
  | _ => false

/-- The loop of `parse_user_message` followed by `UserMessageItem::message`; `previous?` is
`message.get(idx - 1)` -/
def userMessageText (previous? : Option ContentItem) : List ContentItem → Text
  | [] => []
  | .inputText text :: rest =>
    if (isAnyImageOpenTagText text && isInputImage? rest.head?) ||
        (isImageCloseTagText text && isInputImage? previous?) then
      userMessageText (some (.inputText text)) rest
    else text ++ userMessageText (some (.inputText text)) rest
  | contentItem :: rest => userMessageText (some contentItem) rest

variable (env : ContextEnv)

/-- The `TurnItem::UserMessage` that `parse_turn_item` gives, reduced to its `message()` -/
def parseUserTurnMessage : ResponseItem Value → Option Text
  | .message _ role content _ _ =>
    if role = "user".toList ∧ isVisibleHookPromptMessage env content = false ∧
        isContextualUserMessageContent env content = false then
      some (userMessageText none content)
    else none
  | _ => none

/-! ### Compaction -/

structure CompactedUserMessage (Value : Type) where
  message : Text
  metadata : Option Value

def summaryPrefix : Text :=
  ("Another language model started to solve this problem and produced a summary of its thinking " ++
    "process. You also have access to the state of the tools that were used by that language " ++
    "model. Use this to build on the work that has already been done and avoid duplicating " ++
    "work. Here is the summary produced by the other language model, use the information in " ++
    "this summary to assist with your own analysis:").toList

def isSummaryMessage (message : Text) : Bool := startsWith message (summaryPrefix ++ "\n".toList)

/-- The metadata `collect_user_messages` keeps -/
def messageMetadata? : ResponseItem Value → Option Value
  | .message _ _ _ _ metadata => metadata
  | _ => none

def collectUserMessages (items : List (ResponseItem Value)) : List (CompactedUserMessage Value) :=
  items.filterMap fun item =>
    match parseUserTurnMessage env item with
    | some message =>
      if isSummaryMessage message then none else some ⟨message, messageMetadata? item⟩
    | none => none

/-- `approx_token_count`, four bytes of UTF-8 a token -/
def approxTokenCount : ℕ := ((text.map Char.utf8Size).sum + 3) / 4

/-- The loop of `build_compacted_history_with_limit`, over the messages newest first -/
def selectMessages (env : ContextEnv) :
    List (CompactedUserMessage Value) → ℕ → List (CompactedUserMessage Value)
  | [], _ => []
  | message :: older, remaining =>
    if remaining = 0 then []
    else if approxTokenCount message.message ≤ remaining then
      message :: selectMessages env older (remaining - approxTokenCount message.message)
    else [{ message with message := env.truncateText message.message remaining }]

/-- The `ResponseItem::Message` pushed for a user message and for the summary -/
def userInputMessage (metadata : Option Value) : ResponseItem Value :=
  .message none "user".toList [.inputText text] none metadata

def buildCompactedHistoryWithLimit (history : List (ResponseItem Value))
    (userMessages : List (CompactedUserMessage Value)) (summaryText : Text) (maxTokens : ℕ) :
    List (ResponseItem Value) :=
  let selectedMessages :=
    if 0 < maxTokens then (selectMessages env userMessages.reverse maxTokens).reverse else []
  let summaryText := if summaryText.isEmpty then "(no summary available)".toList else summaryText
  history ++ selectedMessages.map (fun message => userInputMessage message.message message.metadata)
    ++ [userInputMessage summaryText none]

def compactUserMessageMaxTokens : ℕ := 20000

def buildCompactedHistory (initialContext : List (ResponseItem Value))
    (userMessages : List (CompactedUserMessage Value)) (summaryText : Text) :
    List (ResponseItem Value) :=
  buildCompactedHistoryWithLimit env initialContext userMessages summaryText
    compactUserMessageMaxTokens

end Codex.ContextManager
