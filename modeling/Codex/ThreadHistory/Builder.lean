import Codex.Lib.Upsert
import Codex.Session.RolloutReconstruction

/-!
# The turns of a thread

`app-server-protocol/src/protocol/thread_history.rs`: a builder turns the records of a rollout into
turns, each with its items. Events go to the current turn or, by their turn id, to an older one; a
turn that no `TurnStarted` opened is implicit. While a change set is active, every change is
recorded in it.

The item of a tool event is `ThreadItem.tool`: its id, and the other fields as the handler makes
them from the payload, which nothing reads (`HistoryEnv.toolFields`). `Draws` are the random ids.
-/

namespace Codex.ThreadHistory

open Codex.Lib Codex.Protocol Codex.Session

variable {Value : Type}

/-! ### Items -/

/-- `UserInput`, as far as a user message makes them -/
inductive UserInput (Value : Type) where
  | text (text : Text) (textElements : List Value)
  | image (url : Text) (detail : Option ImageDetail)
  | localImage (path : Text) (detail : Option ImageDetail)
  deriving DecidableEq

structure HookPromptFragment where
  text : Text
  hookRunId : Text
  deriving DecidableEq

/-- The variants of `ThreadItem` that tool events make -/
inductive ToolKind where
  | commandExecution
  | fileChange
  | mcpToolCall
  | dynamicToolCall
  | collabAgentToolCall
  | subAgentActivity
  | webSearch
  | imageView
  | imageGeneration
  deriving DecidableEq

inductive ThreadItem (Value : Type) where
  | userMessage (id : Text) (clientId : Option Text) (content : List (UserInput Value))
  | hookPrompt (id : Text) (fragments : List HookPromptFragment)
  | agentMessage (id text : Text) (phase : Option MessagePhase) (memoryCitation : Option Value)
  | plan (id text : Text)
  | reasoning (id : Text) (summary content : List Text)
  | tool (kind : ToolKind) (id : Text) (fields : Value)
  | sleep (id : Text) (durationMs : ℕ)
  | enteredReviewMode (id review : Text)
  | exitedReviewMode (id review : Text)
  | contextCompaction (id : Text)
  deriving DecidableEq

def ThreadItem.id : ThreadItem Value → Text
  | userMessage id _ _ | hookPrompt id _ | agentMessage id _ _ _ | plan id _ | reasoning id _ _
  | tool _ id _ | sleep id _ | enteredReviewMode id _ | exitedReviewMode id _
  | contextCompaction id => id

/-! ### Turns -/

inductive TurnStatus where
  | completed
  | interrupted
  | failed
  | inProgress
  deriving DecidableEq

inductive CodexErrorInfo (Value : Type) where
  | threadRollbackFailed
  | activeTurnNotSteerable (turnKind : Value)
  | other (info : Value)
  deriving DecidableEq

structure TurnError (Value : Type) where
  message : Text
  codexErrorInfo : Option (CodexErrorInfo Value)
  additionalDetails : Option Text
  deriving DecidableEq

/-- `Turn`; `items_view` is always `Full` -/
structure Turn (Value : Type) where
  id : Text
  items : List (ThreadItem Value)
  error : Option (TurnError Value)
  status : TurnStatus
  startedAt : Option ℤ
  completedAt : Option ℤ
  durationMs : Option ℤ
  deriving DecidableEq

structure PendingTurn (Value : Type) extends Turn Value where
  openedExplicitly : Bool
  sawCompaction : Bool
  rolloutStartIndex : ℕ

/-! ### Changes -/

/-- `ThreadHistoryItemChange` -/
structure ItemChange (Value : Type) where
  turnId : Text
  item : ThreadItem Value

/-- `ThreadHistoryTurnChange` -/
structure TurnChange (Value : Type) where
  turnId : Text
  status : TurnStatus
  error : Option (TurnError Value)
  startedAt : Option ℤ
  completedAt : Option ℤ
  durationMs : Option ℤ

/-- `ThreadHistoryTurnChange::from_turn`, `from_pending_turn` -/
def TurnChange.fromTurn (turn : Turn Value) : TurnChange Value where
  turnId := turn.id
  status := turn.status
  error := turn.error
  startedAt := turn.startedAt
  completedAt := turn.completedAt
  durationMs := turn.durationMs

/-- `ThreadHistoryChangeSet` -/
structure ChangeSet (Value : Type) where
  changedItems : List (ItemChange Value)
  changedTurns : List (TurnChange Value)
  removedTurnIds : List Text

/-- `ThreadHistoryChangeSet::default` -/
def ChangeSet.empty : ChangeSet Value := ⟨[], [], []⟩

/-! ### Events -/

structure UserMessageEvent (Value : Type) where
  clientId : Option Text
  message : Text
  images : Option (List Text)
  imageDetails : List (Option ImageDetail)
  localImages : List Text
  localImageDetails : List (Option ImageDetail)
  textElements : List Value
  deriving DecidableEq

/-- The variants of `EventMsg` whose handlers build an item from the payload and upsert
it -/
inductive ToolEvent where
  | webSearchBegin
  | webSearchEnd
  | execCommandBegin
  | execCommandEnd
  | applyPatchApprovalRequest
  | patchApplyBegin
  | patchApplyEnd
  | dynamicToolCallRequest
  | dynamicToolCallResponse
  | mcpToolCallBegin
  | mcpToolCallEnd
  | viewImageToolCall
  | imageGenerationBegin
  | imageGenerationEnd
  | collabAgentSpawnBegin
  | collabAgentSpawnEnd
  | collabAgentInteractionBegin
  | collabAgentInteractionEnd
  | subAgentActivity
  | collabWaitingBegin
  | collabWaitingEnd
  | collabCloseBegin
  | collabCloseEnd
  | collabResumeBegin
  | collabResumeEnd

/-- The item that the handler of the event builds -/
def ToolEvent.itemKind : ToolEvent → ToolKind
  | webSearchBegin | webSearchEnd => .webSearch
  | execCommandBegin | execCommandEnd => .commandExecution
  | applyPatchApprovalRequest | patchApplyBegin | patchApplyEnd => .fileChange
  | dynamicToolCallRequest | dynamicToolCallResponse => .dynamicToolCall
  | mcpToolCallBegin | mcpToolCallEnd => .mcpToolCall
  | viewImageToolCall => .imageView
  | imageGenerationBegin | imageGenerationEnd => .imageGeneration
  | subAgentActivity => .subAgentActivity
  | collabAgentSpawnBegin | collabAgentSpawnEnd | collabAgentInteractionBegin
  | collabAgentInteractionEnd | collabWaitingBegin | collabWaitingEnd | collabCloseBegin
  | collabCloseEnd | collabResumeBegin | collabResumeEnd => .collabAgentToolCall

/-- The turn that an item goes to. -/
inductive Route where
  | current
  | turnId
  | turnIdOrCurrent

/-- The turn that the handler of the event upserts into -/
def ToolEvent.route : ToolEvent → Route
  | execCommandBegin | execCommandEnd => .turnId
  | applyPatchApprovalRequest | patchApplyBegin | patchApplyEnd | dynamicToolCallRequest
  | dynamicToolCallResponse => .turnIdOrCurrent
  | _ => .current

inductive GuardianAssessmentStatus where
  | inProgress
  | denied
  | aborted
  | timedOut
  | approved
  deriving DecidableEq

/-- `GuardianAssessmentEvent`; `reviewsCommand` says that the action is a command or an
execve -/
structure GuardianAssessmentEvent (Value : Type) where
  targetItemId : Option Text
  turnId : Text
  status : GuardianAssessmentStatus
  reviewsCommand : Bool
  payload : Value

/-- `TurnItem` (`protocol/src/items.rs`) -/
inductive TurnItem where
  | plan (id text : Text)
  | sleep (id : Text) (durationMs : ℕ)
  | other

/-- `EventMsg`, with what the handlers read; the event of a tool has its `call_id` (for
`SubAgentActivity` its `event_id`) and, where it has one, its `turn_id` -/
inductive EventMsg (Value : Type) where
  | userMessage (payload : UserMessageEvent Value)
  | agentMessage (message : Text) (phase : Option MessagePhase) (memoryCitation : Option Value)
  | agentReasoning (text : Text)
  | agentReasoningRawContent (text : Text)
  | tool (event : ToolEvent) (callId turnId : Text) (payload : Value)
  | guardianAssessment (payload : GuardianAssessmentEvent Value)
  | contextCompacted
  | enteredReviewMode (userFacingHint : Option Text)
  | exitedReviewMode (overallExplanation : Option Text)
  | itemStarted (turnId : Text) (item : TurnItem)
  | itemCompleted (turnId : Text) (item : TurnItem)
  | error (message : Text) (codexErrorInfo : Option (CodexErrorInfo Value))
  | threadRolledBack (numTurns : ℕ)
  | turnAborted (turnId : Option Text) (completedAt durationMs : Option ℤ)
  | turnStarted (turnId : Text) (startedAt : Option ℤ)
  | turnComplete (turnId : Text) (completedAt durationMs : Option ℤ)
  | other (event : Value)

inductive RolloutItem (Value : Type) where
  | sessionMeta (contextWindowId : Option Text)
  | responseItem (item : ResponseItem Value)
  | interAgentCommunication (communication : InterAgentCommunication Value)
  | interAgentCommunicationMetadata (triggerTurn : Bool)
  | compacted (compacted : CompactedItem Value)
  | turnContext (ctx : TurnContextItem Value)
  | worldState (worldState : WorldStateItem Value)
  | eventMsg (event : EventMsg Value)

/-- What the handlers call: `from_xml_str::<HookPromptXml>`, and the fields of a tool's item that
are made from the payload of its event (for a guardian's event, with the status of the command). -/
structure HistoryEnv (Value : Type) where
  hookPromptXml : Text → Option HookPromptFragment
  toolFields : ToolEvent → Value → Value
  guardianFields : GuardianAssessmentStatus → Value → Value

/-- The ids that `Uuid::new_v4` and `Uuid::now_v7` draw while the record at an index is handled. -/
structure Draws where
  newV4 : ℕ → Text
  nowV7 : ℕ → Text

/-! ### The builder -/

/-- `ThreadHistoryBuilder` -/
structure Builder (Value : Type) where
  turns : List (Turn Value)
  currentTurn : Option (PendingTurn Value)
  nextItemIndex : ℕ
  currentRolloutIndex : ℕ
  nextRolloutIndex : ℕ
  activeChangeSet : Option (ChangeSet Value)

namespace Builder

def new : Builder Value where
  turns := []
  currentTurn := none
  nextItemIndex := 1
  currentRolloutIndex := 0
  nextRolloutIndex := 0
  activeChangeSet := none

variable (builder : Builder Value)

def recordChangedItem (turnId : Text) (item : ThreadItem Value) : Builder Value :=
  { builder with
    activeChangeSet := builder.activeChangeSet.map fun changes =>
      { changes with changedItems := changes.changedItems ++ [⟨turnId, item⟩] } }

/-- `record_changed_turn`, `record_changed_pending_turn` -/
def recordChangedTurn (turn : Turn Value) : Builder Value :=
  { builder with
    activeChangeSet := builder.activeChangeSet.map fun changes =>
      { changes with changedTurns := changes.changedTurns ++ [.fromTurn turn] } }

def recordRemovedTurnIds (removedTurnIds : List Text) : Builder Value :=
  { builder with
    activeChangeSet := builder.activeChangeSet.map fun changes =>
      { changes with removedTurnIds := changes.removedTurnIds ++ removedTurnIds } }

def finishCurrentTurn : Builder Value :=
  match builder.currentTurn with
  | none => builder
  | some turn =>
    if turn.items.isEmpty && !turn.openedExplicitly && !turn.sawCompaction then
      { builder with currentTurn := none }
    else { builder with currentTurn := none, turns := builder.turns ++ [turn.toTurn] }

/-- `format!("rollout-{}", ..)` -/
def rolloutTurnId (index : ℕ) : Text := "rollout-".toList ++ Nat.toDigits 10 index

/-- `format!("item-{}", ..)` -/
def itemId (index : ℕ) : Text := "item-".toList ++ Nat.toDigits 10 index

variable (draws : Draws)

def newTurn (builder : Builder Value) (id : Option Text) : PendingTurn Value where
  id := id.getD (if builder.nextRolloutIndex = 0 then draws.nowV7 builder.currentRolloutIndex
    else rolloutTurnId builder.currentRolloutIndex)
  items := []
  error := none
  status := .completed
  startedAt := none
  completedAt := none
  durationMs := none
  openedExplicitly := false
  sawCompaction := false
  rolloutStartIndex := builder.currentRolloutIndex

/-- `ensure_turn`: the current turn, and the builder that has it -/
def ensureTurn (builder : Builder Value) : PendingTurn Value × Builder Value :=
  match builder.currentTurn with
  | some turn => (turn, builder)
  | none =>
    let turn := builder.newTurn draws none
    (turn, { builder.recordChangedTurn turn.toTurn with currentTurn := some turn })

def pushItemInCurrentTurn (builder : Builder Value) (item : ThreadItem Value) : Builder Value :=
  let (turn, builder) := builder.ensureTurn draws
  { builder with currentTurn := some { turn with items := turn.items ++ [item] } }.recordChangedItem
    turn.id item

def upsertTurnItem (items : List (ThreadItem Value)) (item : ThreadItem Value) :
    List (ThreadItem Value) :=
  upsert ThreadItem.id item items

def upsertItemInCurrentTurn (builder : Builder Value) (item : ThreadItem Value) : Builder Value :=
  let (turn, builder) := builder.ensureTurn draws
  { builder with
    currentTurn := some { turn with items := upsertTurnItem turn.items item } }.recordChangedItem
      turn.id item

/-- `self.turns.iter_mut().find(|turn| turn.id == turn_id)`: the first turn with the id as
it is after the update, and the turns -/
def updateTurn (turnId : Text) (update : Turn Value → Turn Value) :
    List (Turn Value) → Option (Turn Value × List (Turn Value))
  | [] => none
  | turn :: turns =>
    if turn.id = turnId then some (update turn, update turn :: turns)
    else (updateTurn turnId update turns).map fun (updated, turns) => (updated, turn :: turns)

def upsertItemInTurnId (turnId : Text) (item : ThreadItem Value) : Builder Value :=
  match builder.currentTurn.filter (·.id = turnId) with
  | some turn =>
    { builder with
      currentTurn := some { turn with items := upsertTurnItem turn.items item } }.recordChangedItem
        turn.id item
  | none =>
    match updateTurn turnId (fun turn => { turn with items := upsertTurnItem turn.items item })
        builder.turns with
    | some (turn, turns) => { builder with turns := turns }.recordChangedItem turn.id item
    | none => builder

def nextItemId : Text × Builder Value :=
  (itemId builder.nextItemIndex, { builder with nextItemIndex := builder.nextItemIndex + 1 })

def buildUserInputs (payload : UserMessageEvent Value) : List (UserInput Value) :=
  (if (trim payload.message).isEmpty then []
    else [.text payload.message payload.textElements]) ++
  (payload.images.getD []).mapIdx
    (fun idx image => .image image (payload.imageDetails[idx]?.getD none)) ++
  payload.localImages.mapIdx
    fun idx path => .localImage path (payload.localImageDetails[idx]?.getD none)

def handleUserMessage (builder : Builder Value)
    (payload : UserMessageEvent Value) : Builder Value :=
  let builder :=
    match builder.currentTurn with
    | some turn =>
      if !turn.openedExplicitly && !(turn.sawCompaction && turn.items.isEmpty) then
        builder.finishCurrentTurn
      else builder
    | none => builder
  let (id, builder) := builder.nextItemId
  builder.pushItemInCurrentTurn draws (.userMessage id payload.clientId (buildUserInputs payload))

def handleAgentMessage (builder : Builder Value) (text : Text)
    (phase : Option MessagePhase) (memoryCitation : Option Value) : Builder Value :=
  if text.isEmpty then builder
  else
    let (id, builder) := builder.nextItemId
    builder.pushItemInCurrentTurn draws (.agentMessage id text phase memoryCitation)

/-- The body of `handle_agent_reasoning` and `handle_agent_reasoning_raw_content`: the text
goes to the last item of the turn if that is reasoning, and to an item of its own otherwise -/
def handleReasoningText (builder : Builder Value)
    (add : List Text × List Text → List Text × List Text) : Builder Value :=
  let (turn, builder) := builder.ensureTurn draws
  match turn.items.getLast? with
  | some (.reasoning id summary content) =>
    let item := .reasoning id (add (summary, content)).1 (add (summary, content)).2
    { builder with
      currentTurn := some { turn with items := turn.items.dropLast ++ [item] } }.recordChangedItem
        turn.id item
  | _ =>
    let (id, builder) := builder.nextItemId
    builder.pushItemInCurrentTurn draws (.reasoning id (add ([], [])).1 (add ([], [])).2)

def handleAgentReasoning (builder : Builder Value) (text : Text) : Builder Value :=
  if text.isEmpty then builder
  else builder.handleReasoningText draws fun (summary, content) => (summary ++ [text], content)

def handleAgentReasoningRawContent (builder : Builder Value) (text : Text) : Builder Value :=
  if text.isEmpty then builder
  else builder.handleReasoningText draws fun (summary, content) => (summary, content ++ [text])

/-- `if payload.turn_id.is_empty()` of the handlers -/
def upsertItemInTurnIdOrCurrent (builder : Builder Value) (turnId : Text)
    (item : ThreadItem Value) : Builder Value :=
  if turnId.isEmpty then builder.upsertItemInCurrentTurn draws item
  else builder.upsertItemInTurnId turnId item

variable (env : HistoryEnv Value)

/-- `handle_web_search_begin` and the handlers of the other tool events -/
def handleTool (draws : Draws) (builder : Builder Value)
    (event : ToolEvent) (callId turnId : Text) (payload : Value) : Builder Value :=
  let item := .tool event.itemKind callId (env.toolFields event payload)
  match event.route with
  | .current => builder.upsertItemInCurrentTurn draws item
  | .turnId => builder.upsertItemInTurnId turnId item
  | .turnIdOrCurrent => builder.upsertItemInTurnIdOrCurrent draws turnId item

def buildItemFromGuardianEvent (payload : GuardianAssessmentEvent Value) :
    Option (ThreadItem Value) :=
  if payload.reviewsCommand then
    payload.targetItemId.map fun id =>
      .tool .commandExecution id (env.guardianFields payload.status payload.payload)
  else none

def handleGuardianAssessment (draws : Draws) (builder : Builder Value)
    (payload : GuardianAssessmentEvent Value) : Builder Value :=
  if payload.status = .approved then builder
  else
    match buildItemFromGuardianEvent env payload with
    | none => builder
    | some item => builder.upsertItemInTurnIdOrCurrent draws payload.turnId item

/-- `handle_item_started`, `handle_item_completed` -/
def handleTurnItem (turnId : Text) : TurnItem → Builder Value
  | .plan id text =>
    if text.isEmpty then builder else builder.upsertItemInTurnId turnId (.plan id text)
  | .sleep id durationMs => builder.upsertItemInTurnId turnId (.sleep id durationMs)
  | .other => builder

variable (draws : Draws)

def handleContextCompacted (builder : Builder Value) : Builder Value :=
  let (id, builder) := builder.nextItemId
  builder.pushItemInCurrentTurn draws (.contextCompaction id)

def handleEnteredReviewMode (builder : Builder Value)
    (userFacingHint : Option Text) : Builder Value :=
  let (id, builder) := builder.nextItemId
  builder.pushItemInCurrentTurn draws
    (.enteredReviewMode id (userFacingHint.getD "Review requested.".toList))

def reviewFallbackMessage : Text := "Reviewer failed to output a response.".toList

def renderReviewOutputText (overallExplanation : Text) : Text :=
  if (trim overallExplanation).isEmpty then reviewFallbackMessage else trim overallExplanation

def handleExitedReviewMode (builder : Builder Value)
    (overallExplanation : Option Text) : Builder Value :=
  let (id, builder) := builder.nextItemId
  builder.pushItemInCurrentTurn draws (.exitedReviewMode id
    ((overallExplanation.map renderReviewOutputText).getD reviewFallbackMessage))

/-- The update of `self.current_turn` and the change of the turn -/
def updateCurrentTurn (turn : PendingTurn Value)
    (update : Turn Value → Turn Value) : Builder Value :=
  { builder with
    currentTurn := some { turn with toTurn := update turn.toTurn } }.recordChangedTurn
      (update turn.toTurn)

def affectsTurnStatus : Option (CodexErrorInfo Value) → Bool
  | some .threadRollbackFailed | some (.activeTurnNotSteerable _) => false
  | some (.other _) | none => true

def handleError (message : Text) (codexErrorInfo : Option (CodexErrorInfo Value)) : Builder Value :=
  if affectsTurnStatus codexErrorInfo then
    match builder.currentTurn with
    | some turn =>
      builder.updateCurrentTurn turn fun turn =>
        { turn with status := .failed, error := some ⟨message, codexErrorInfo, none⟩ }
    | none => builder
  else builder

variable (turnId : Option Text)

/-- The search of `handle_turn_aborted` and `handle_turn_complete`: the turn with the id,
first the current one, else the current turn; the current turn is closed if it `closes` -/
def updateTurnOrCurrent (closes : Bool) (update : Turn Value → Turn Value) : Builder Value :=
  let updateCurrent (turn : PendingTurn Value) : Builder Value :=
    let builder := builder.updateCurrentTurn turn update
    if closes then builder.finishCurrentTurn else builder
  match turnId.bind fun turnId => builder.currentTurn.filter (·.id = turnId) with
  | some turn => updateCurrent turn
  | none =>
    match turnId.bind fun turnId => updateTurn turnId update builder.turns with
    | some (turn, turns) => { builder with turns := turns }.recordChangedTurn turn
    | none =>
      match builder.currentTurn with
      | some turn => updateCurrent turn
      | none => builder

/-- An update reaches the current turn, or a finished one, or none. -/
theorem updateTurnOrCurrent_cases (closes : Bool) (update : Turn Value → Turn Value) :
    (∃ turn, builder.currentTurn = some turn ∧
      builder.updateTurnOrCurrent turnId closes update =
        if closes then (builder.updateCurrentTurn turn update).finishCurrentTurn
        else builder.updateCurrentTurn turn update) ∨
    (∃ id turn turns, updateTurn id update builder.turns = some (turn, turns) ∧
      builder.updateTurnOrCurrent turnId closes update =
        { builder with turns := turns }.recordChangedTurn turn) ∨
    builder.updateTurnOrCurrent turnId closes update = builder := by
  rw [updateTurnOrCurrent]
  simp only
  split
  next turn hfilter =>
    obtain ⟨id, -, hfilter⟩ := Option.bind_eq_some_iff.mp hfilter
    exact .inl ⟨turn, (Option.filter_eq_some_iff.mp hfilter).1, rfl⟩
  next =>
    split
    next turn turns hupdate =>
      obtain ⟨id, -, hupdate⟩ := Option.bind_eq_some_iff.mp hupdate
      exact .inr (.inl ⟨id, turn, turns, hupdate, rfl⟩)
    next =>
      split
      next turn hturn => exact .inl ⟨turn, hturn, rfl⟩
      next => exact .inr (.inr rfl)

def handleTurnAborted (completedAt durationMs : Option ℤ) : Builder Value :=
  builder.updateTurnOrCurrent turnId false fun turn =>
    { turn with status := .interrupted, completedAt := completedAt, durationMs := durationMs }

def handleTurnComplete (turnId : Text) (completedAt durationMs : Option ℤ) : Builder Value :=
  builder.updateTurnOrCurrent (some turnId) true fun turn =>
    { turn with
      status := if turn.status = .completed ∨ turn.status = .inProgress then .completed
        else turn.status
      completedAt := completedAt
      durationMs := durationMs }

def handleTurnStarted (builder : Builder Value) (turnId : Text)
    (startedAt : Option ℤ) : Builder Value :=
  let builder := builder.finishCurrentTurn
  let turn : PendingTurn Value :=
    { builder.newTurn draws (some turnId) with
      status := .inProgress, startedAt := startedAt, openedExplicitly := true }
  { builder.recordChangedTurn turn.toTurn with currentTurn := some turn }

def handleCompacted (builder : Builder Value) : Builder Value :=
  let (turn, builder) := builder.ensureTurn draws
  { builder with currentTurn := some { turn with sawCompaction := true } }

def handleThreadRollback (numTurns : ℕ) : Builder Value :=
  let builder := builder.finishCurrentTurn
  let kept := builder.turns.length - numTurns
  let turns := builder.turns.take kept
  { builder.recordRemovedTurnIds ((builder.turns.drop kept).map Turn.id) with
    turns := turns
    nextItemIndex := (turns.map fun turn => turn.items.length).sum + 1 }

def parseHookPromptFragment (text : Text) : Option HookPromptFragment :=
  (env.hookPromptXml (trim text)).filter fun fragment => !(trim fragment.hookRunId).isEmpty

/-- The fragments of `parse_hook_prompt_message` -/
def hookPromptFragments (content : List ContentItem) : Option (List HookPromptFragment) :=
  (content.mapM fun
    | ContentItem.inputText text => parseHookPromptFragment env text
    | _ => none).filter fun fragments => !fragments.isEmpty

/-- `handle_response_item`; the id of a hook prompt is drawn if the message has none -/
def handleResponseItem (draws : Draws) (builder : Builder Value) :
    ResponseItem Value → Builder Value
  | .message id role content _ _ =>
    if role = "user".toList then
      match hookPromptFragments env content with
      | none => builder
      | some fragments =>
        builder.pushItemInCurrentTurn draws
          (.hookPrompt (id.getD (draws.newV4 builder.currentRolloutIndex)) fragments)
    else builder
  | _ => builder

def handleEvent (draws : Draws) (builder : Builder Value) :
    EventMsg Value → Builder Value
  | .userMessage payload => builder.handleUserMessage draws payload
  | .agentMessage message phase memoryCitation =>
    builder.handleAgentMessage draws message phase memoryCitation
  | .agentReasoning text => builder.handleAgentReasoning draws text
  | .agentReasoningRawContent text => builder.handleAgentReasoningRawContent draws text
  | .tool event callId turnId payload => builder.handleTool env draws event callId turnId payload
  | .guardianAssessment payload => builder.handleGuardianAssessment env draws payload
  | .contextCompacted => builder.handleContextCompacted draws
  | .enteredReviewMode userFacingHint => builder.handleEnteredReviewMode draws userFacingHint
  | .exitedReviewMode overallExplanation => builder.handleExitedReviewMode draws overallExplanation
  | .itemStarted turnId item => builder.handleTurnItem turnId item
  | .itemCompleted turnId item => builder.handleTurnItem turnId item
  | .error message codexErrorInfo => builder.handleError message codexErrorInfo
  | .threadRolledBack numTurns => builder.handleThreadRollback numTurns
  | .turnAborted turnId completedAt durationMs =>
    builder.handleTurnAborted turnId completedAt durationMs
  | .turnStarted turnId startedAt => builder.handleTurnStarted draws turnId startedAt
  | .turnComplete turnId completedAt durationMs =>
    builder.handleTurnComplete turnId completedAt durationMs
  | .other _ => builder

/-- The match of `handle_rollout_item` -/
def handleRecord (draws : Draws) (builder : Builder Value) :
    RolloutItem Value → Builder Value
  | .eventMsg event => builder.handleEvent env draws event
  | .compacted _ => builder.handleCompacted draws
  | .responseItem item => builder.handleResponseItem env draws item
  | _ => builder

def handleRolloutItem (draws : Draws) (builder : Builder Value)
    (item : RolloutItem Value) : Builder Value :=
  { builder with
    currentRolloutIndex := builder.nextRolloutIndex
    nextRolloutIndex := builder.nextRolloutIndex + 1 }.handleRecord env draws item

def finish : List (Turn Value) := builder.finishCurrentTurn.turns

/-- `handle_rollout_item_with_changes`, `collect_changes` -/
def handleRolloutItemWithChanges (draws : Draws) (builder : Builder Value)
    (item : RolloutItem Value) : ChangeSet Value × Builder Value :=
  let builder := { builder with activeChangeSet := some .empty }.handleRolloutItem env draws item
  (builder.activeChangeSet.getD .empty, { builder with activeChangeSet := none })

end Builder

def buildTurnsFromRolloutItems (env : HistoryEnv Value) (draws : Draws)
    (items : List (RolloutItem Value)) : List (Turn Value) :=
  (items.foldl (Builder.handleRolloutItem env draws) .new).finish

end Codex.ThreadHistory
