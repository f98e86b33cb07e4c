import Codex.Lib.Text

/-!
# Response items

`protocol/src/models.rs`: the items of a conversation, as they are kept in the history, written to
the rollout and sent to the model. `Value` stands for the payloads that no modelled function reads
(`serde_json::Value`, shell and web-search actions, reasoning parts, the passthrough metadata).

The passes over the history read the role and the content of a message, the ids that pair a call
with its output, and the images of an output; every other field is carried along, so that what a
pass returns can be compared with what it was given.
-/

namespace Codex.Protocol

open Codex.Lib

/-- How closely the model looks at an image -/
inductive ImageDetail where
  | auto
  | low
  | high
  | original
  deriving DecidableEq

/-- A part of a message: what the user or the model wrote, or an image -/
inductive ContentItem where
  | inputText (text : Text)
  | inputImage (imageUrl : Text) (detail : Option ImageDetail)
  | outputText (text : Text)
  deriving DecidableEq

/-- A part of a message between agents, in clear or encrypted -/
inductive AgentMessageInputContent where
  | inputText (text : Text)
  | encryptedContent (encryptedContent : Text)
  deriving DecidableEq

/-- A part of the output of a tool -/
inductive FunctionCallOutputContentItem where
  | inputText (text : Text)
  | inputImage (imageUrl : Text) (detail : Option ImageDetail)
  | encryptedContent (encryptedContent : Text)
  deriving DecidableEq

/-- The output of a tool: one text, or parts -/
inductive FunctionCallOutputBody where
  | text (content : Text)
  | contentItems (items : List FunctionCallOutputContentItem)
  deriving DecidableEq

/-- What a tool call is answered with, and whether it succeeded -/
structure FunctionCallOutputPayload where
  body : FunctionCallOutputBody
  success : Option Bool
  deriving DecidableEq

def FunctionCallOutputPayload.fromText (content : Text) : FunctionCallOutputPayload :=
  { body := .text content, success := none }

/-- Whether a message of the model comments on the turn or answers it -/
inductive MessagePhase where
  | commentary
  | finalAnswer
  deriving DecidableEq

/-- How far a shell call of the model has got -/
inductive LocalShellStatus where
  | completed
  | inProgress
  | incomplete
  deriving DecidableEq

/-- `InputModality` (`openai_models.rs`) -/
inductive InputModality where
  | text
  | image
  deriving DecidableEq

/-- `ResponseItem`; `metadata` is `internal_chat_message_metadata_passthrough` -/
inductive ResponseItem (Value : Type) where
  | additionalTools (id : Option Text) (role : Text) (tools : List Value)
  | message (id : Option Text) (role : Text) (content : List ContentItem)
      (phase : Option MessagePhase) (metadata : Option Value)
  | agentMessage (id : Option Text) (author recipient : Text)
      (content : List AgentMessageInputContent) (metadata : Option Value)
  | reasoning (id : Option Text) (summary : List Value) (content : Option (List Value))
      (encryptedContent : Option Text) (metadata : Option Value)
  | localShellCall (id callId : Option Text) (status : LocalShellStatus) (action : Value)
      (metadata : Option Value)
  | functionCall (id : Option Text) (name : Text) (namespace? : Option Text) (arguments : Text)
      (callId : Text) (metadata : Option Value)
  | toolSearchCall (id callId status : Option Text) (execution : Text) (arguments : Value)
      (metadata : Option Value)
  | functionCallOutput (id : Option Text) (callId : Text) (output : FunctionCallOutputPayload)
      (metadata : Option Value)
  | customToolCall (id status : Option Text) (callId name input : Text) (metadata : Option Value)
  | customToolCallOutput (id : Option Text) (callId : Text) (name : Option Text)
      (output : FunctionCallOutputPayload) (metadata : Option Value)
  | toolSearchOutput (id callId : Option Text) (status execution : Text) (tools : List Value)
      (metadata : Option Value)
  | webSearchCall (id status : Option Text) (action : Option Value) (metadata : Option Value)
  | imageGenerationCall (id : Option Text) (status : Text) (revisedPrompt : Option Text)
      (result : Text) (metadata : Option Value)
  | compaction (id : Option Text) (encryptedContent : Text) (metadata : Option Value)
  | compactionTrigger
  | contextCompaction (id encryptedContent : Option Text) (metadata : Option Value)
  | other
  deriving DecidableEq

end Codex.Protocol
