import Codex.ContextManager.History

/-!
# Reconstructing a session from its rollout

`core/src/session/rollout_reconstruction.rs`, with the rollout records of `protocol/src/protocol.rs`
it reads. The records are scanned from the newest to the oldest: turn segments are gathered, skipped
while rollbacks are pending, and otherwise give the settings, the baselines and the base of the
history; the scan stops early once all of these are known. The records newer than the last
compaction checkpoint seen are then replayed forward to materialise the history.

The pending counter is a natural number: `usize::saturating_add` of `u32` counts saturates beyond
any rollout. `scanBack_append` cuts the scan in two.
-/

namespace Codex.Session

open Codex.Lib Codex.Protocol Codex.Context Codex.ContextManager

/-! ### Rollout records -/

/-- `TurnContextItem`; `settings` is the record's other fields -/
structure TurnContextItem (Value : Type) where
  turnId : Option Text
  model : Text
  compHash : Option Text
  realtimeActive : Option Bool
  settings : Value
  deriving DecidableEq

structure CompactedItem (Value : Type) where
  message : Text
  replacementHistory : Option (List (ResponseItem Value))
  windowNumber : Option ℕ
  firstWindowId : Option Text
  previousWindowId : Option Text
  windowId : Option Text

structure WorldStateItem (Value : Type) where
  full : Bool
  state : Value

/-- `InterAgentCommunication`; no function here reads `other_recipients` -/
structure InterAgentCommunication (Value : Type) where
  id : Option Text
  author : Text
  recipient : Text
  content : Text
  encryptedContent : Option Text
  metadata : Option Value
  triggerTurn : Bool

def InterAgentCommunication.toModelInputItem {Value : Type}
    (communication : InterAgentCommunication Value) : ResponseItem Value :=
  let content :=
    match communication.encryptedContent with
    | some encryptedContent =>
      let messageType := if communication.triggerTurn then "NEW_TASK".toList else "MESSAGE".toList
      [.inputText ("Message Type: ".toList ++ messageType ++ "\nTask name: ".toList ++
          communication.recipient ++ "\nSender: ".toList ++ communication.author ++
          "\nPayload:\n".toList),
        .encryptedContent encryptedContent]
    | none => [.inputText communication.content]
  .agentMessage communication.id communication.author communication.recipient content
    communication.metadata

/-- `EventMsg`, with the payloads the reconstruction reads -/
inductive EventMsg (Value : Type) where
  | turnStarted (turnId : Text)
  | turnComplete (turnId : Text)
  | turnAborted (turnId : Option Text)
  | userMessage (event : Value)
  | threadRolledBack (numTurns : ℕ)
  | other (event : Value)

/-- `RolloutItem`; of a session's metadata only its context window's id is read -/
inductive RolloutItem (Value : Type) where
  | sessionMeta (contextWindowId : Option Text)
  | responseItem (item : ResponseItem Value)
  | interAgentCommunication (communication : InterAgentCommunication Value)
  | interAgentCommunicationMetadata (triggerTurn : Bool)
  | compacted (compacted : CompactedItem Value)
  | turnContext (ctx : TurnContextItem Value)
  | worldState (worldState : WorldStateItem Value)
  | eventMsg (event : EventMsg Value)

/-- What the reconstruction calls besides the history: `parse_uuid_v7`, and the reading and
patching of a `WorldStateSnapshot`, where `none` is a JSON error. -/
structure ReplayEnv (Value Snapshot : Type) extends ContextEnv where
  parseUuidV7 : Text → Option (BitVec 128)
  snapshotFromValue : Value → Option Snapshot
  applyMergePatch : Snapshot → Value → Option Snapshot

/-! ### Segments -/

structure PreviousTurnSettings where
  model : Text
  compHash : Option Text
  realtimeActive : Option Bool

structure ReconstructedWindow where
  number : ℕ
  firstId : Option (BitVec 128)
  previousId : Option (BitVec 128)
  id : Option (BitVec 128)

inductive TurnReferenceContextItem (Value : Type) where
  | neverSet
  | cleared
  | latest (ctx : TurnContextItem Value)

/-- The records that `world_state_replay` can hold: its last match has no unreachable arm. -/
inductive WorldStateRecord (Value : Type) where
  | compacted
  | worldState (worldState : WorldStateItem Value)

structure ActiveReplaySegment (Value : Type) where
  turnId : Option Text := none
  countsAsUserTurn : Bool := false
  previousTurnSettings : Option PreviousTurnSettings := none
  referenceContextItem : TurnReferenceContextItem Value := .neverSet
  worldStateReplay : List (WorldStateRecord Value) := []
  baseReplacementHistory : Option (List (ResponseItem Value)) := none
  window : Option ReconstructedWindow := none

/-- The variables of the reverse scan -/
structure ReverseScan (Value : Type) where
  baseReplacementHistory : Option (List (ResponseItem Value)) := none
  previousTurnSettings : Option PreviousTurnSettings := none
  referenceContextItem : TurnReferenceContextItem Value := .neverSet
  worldStateReplay : List (WorldStateRecord Value) := []
  window : Option ReconstructedWindow := none
  pendingRollbackTurns : ℕ := 0
  activeSegment : Option (ActiveReplaySegment Value) := none
  rolloutSuffix : List (RolloutItem Value)

def turnIdsAreCompatible (activeTurnId itemTurnId : Option Text) : Bool :=
  match activeTurnId, itemTurnId with
  | some turnId, some itemTurnId => itemTurnId == turnId
  | _, _ => true

section Reconstruction

variable {Value Snapshot : Type} (env : ReplayEnv Value Snapshot)
  (segment : ActiveReplaySegment Value) (scan : ReverseScan Value)

def finalizeActiveSegment : ReverseScan Value :=
  if 0 < scan.pendingRollbackTurns then
    if segment.countsAsUserTurn then
      { scan with pendingRollbackTurns := scan.pendingRollbackTurns - 1 }
    else scan
  else
    { scan with
      worldStateReplay := scan.worldStateReplay ++ segment.worldStateReplay
      baseReplacementHistory := scan.baseReplacementHistory.or segment.baseReplacementHistory
      window := scan.window.or segment.window
      previousTurnSettings :=
        if scan.previousTurnSettings.isNone && segment.countsAsUserTurn then
          segment.previousTurnSettings
        else scan.previousTurnSettings
      referenceContextItem :=
        match scan.referenceContextItem, segment.referenceContextItem with
        | .neverSet, .cleared => .cleared
        | .neverSet, item => if segment.countsAsUserTurn then item else .neverSet
        | item, _ => item }

/-- The `Compacted` arm of the reverse scan, the segment's part -/
def ActiveReplaySegment.recordCompaction (segment : ActiveReplaySegment Value)
    (compacted : CompactedItem Value) : ActiveReplaySegment Value :=
  { segment with
    worldStateReplay := segment.worldStateReplay ++ [.compacted]
    window := segment.window.or (compacted.windowNumber.map fun number =>
      { number
        firstId := compacted.firstWindowId.bind env.parseUuidV7
        previousId := compacted.previousWindowId.bind env.parseUuidV7
        id := compacted.windowId.bind env.parseUuidV7 })
    referenceContextItem :=
      match segment.referenceContextItem with
      | .neverSet => .cleared
      | item => item
    baseReplacementHistory := segment.baseReplacementHistory.or compacted.replacementHistory }

/-- The `TurnContext` arm of the reverse scan -/
def ActiveReplaySegment.recordTurnContext
    (ctx : TurnContextItem Value) : ActiveReplaySegment Value :=
  let segment := { segment with turnId := segment.turnId.or ctx.turnId }
  if turnIdsAreCompatible segment.turnId ctx.turnId then
    { segment with
      previousTurnSettings := some ⟨ctx.model, ctx.compHash, ctx.realtimeActive⟩
      referenceContextItem :=
        match segment.referenceContextItem with
        | .neverSet => .latest ctx
        | item => item }
  else segment

/-- One turn of the reverse scan; `newer` is `rollout_items[index + 1..]` -/
def scanItem (newer : List (RolloutItem Value)) (item : RolloutItem Value)
    (scan : ReverseScan Value) : ReverseScan Value :=
  let segment := scan.activeSegment.getD {}
  match item with
  | .compacted compacted =>
    { scan with
      activeSegment := some (segment.recordCompaction env compacted)
      rolloutSuffix :=
        if segment.baseReplacementHistory.isNone && compacted.replacementHistory.isSome then newer
        else scan.rolloutSuffix }
  | .eventMsg (.threadRolledBack numTurns) =>
    { scan with pendingRollbackTurns := scan.pendingRollbackTurns + numTurns }
  | .eventMsg (.turnComplete turnId) =>
    { scan with activeSegment := some { segment with turnId := segment.turnId.or (some turnId) } }
  | .eventMsg (.turnAborted turnId) =>
    { scan with
      activeSegment :=
        match scan.activeSegment, turnId with
        | some segment, turnId => some { segment with turnId := segment.turnId.or turnId }
        | none, some turnId => some { turnId := some turnId }
        | none, none => none }
  | .eventMsg (.userMessage _) =>
    { scan with activeSegment := some { segment with countsAsUserTurn := true } }
  | .turnContext ctx => { scan with activeSegment := some (segment.recordTurnContext ctx) }
  | .worldState worldState =>
    { scan with
      activeSegment := some
        { segment with
          worldStateReplay := segment.worldStateReplay ++ [.worldState worldState] } }
  | .eventMsg (.turnStarted turnId) =>
    match scan.activeSegment with
    | some segment =>
      if turnIdsAreCompatible segment.turnId (some turnId) then
        finalizeActiveSegment segment { scan with activeSegment := none }
      else scan
    | none => scan
  | .responseItem item =>
    { scan with
      activeSegment := some
        { segment with
          countsAsUserTurn :=
            segment.countsAsUserTurn || isUserTurnBoundary env.toContextEnv item } }
  | .interAgentCommunication _ =>
    { scan with activeSegment := some { segment with countsAsUserTurn := true } }
  | .eventMsg (.other _) | .sessionMeta _ | .interAgentCommunicationMetadata _ => scan

/-- The condition of the early `break` -/
def ReverseScan.isResolved : Bool :=
  scan.baseReplacementHistory.isSome && scan.previousTurnSettings.isSome &&
    match scan.referenceContextItem with
    | .neverSet => false
    | _ => true

/-- The reverse loop, over the records `items` that stand before `newer` -/
def scanBack (newer : List (RolloutItem Value)) :
    List (RolloutItem Value) → ReverseScan Value → ReverseScan Value
  | [], scan => scan
  | item :: items, scan =>
    let scan := scanBack newer items scan
    if scan.isResolved then scan else scanItem env (items ++ newer) item scan

/-- `active_segment.take()` after the loop -/
def ReverseScan.finish : ReverseScan Value :=
  match scan.activeSegment with
  | some segment => finalizeActiveSegment segment { scan with activeSegment := none }
  | none => scan

/-! ### The forward replay -/

/-- `history` and `saw_legacy_compaction_without_replacement_history` -/
structure ForwardReplay (Value Snapshot : Type) where
  history : ContextManager Value (TurnContextItem Value) Snapshot := {}
  sawLegacyCompaction : Bool := false

/-- One turn of the forward loop -/
def replayItem (replay : ForwardReplay Value Snapshot) :
    RolloutItem Value → ForwardReplay Value Snapshot
  | .responseItem item => { replay with history := replay.history.recordItem env.toContextEnv item }
  | .interAgentCommunication communication =>
    { replay with
      history := replay.history.recordItem env.toContextEnv communication.toModelInputItem }
  | .compacted compacted =>
    match compacted.replacementHistory with
    | some replacementHistory =>
      { replay with history := replay.history.replace replacementHistory }
    | none =>
      let userMessages := collectUserMessages env.toContextEnv replay.history.items
      { history := replay.history.replace
          (buildCompactedHistory env.toContextEnv [] userMessages compacted.message)
        sawLegacyCompaction := true }
  | .eventMsg (.threadRolledBack numTurns) =>
    { replay with history := replay.history.dropLastNUserTurns env.toContextEnv numTurns }
  | _ => replay

/-- `history.replace(base)` where there is a base, and the forward loop -/
def replayForward (base : Option (List (ResponseItem Value))) (suffix : List (RolloutItem Value)) :
    ForwardReplay Value Snapshot :=
  suffix.foldl (replayItem env) { history := { items := base.getD [] } }

/-- One turn of the loop over `world_state_replay` -/
def replayWorldState (baseline : Option Snapshot) : WorldStateRecord Value → Option Snapshot
  | .compacted => none
  | .worldState worldState =>
    if worldState.full then env.snapshotFromValue worldState.state
    else baseline.bind fun baseline => env.applyMergePatch baseline worldState.state

/-! ### The reconstruction -/

structure RolloutReconstruction (Value Snapshot : Type) where
  history : List (ResponseItem Value)
  previousTurnSettings : Option PreviousTurnSettings
  referenceContextItem : Option (TurnContextItem Value)
  worldStateBaseline : Option Snapshot
  windowNumber : ℕ
  firstWindowId : Option (BitVec 128)
  previousWindowId : Option (BitVec 128)
  windowId : Option (BitVec 128)

def reconstructedWindowFromSessionContextWindow (windowId : Text) : Option ReconstructedWindow :=
  (env.parseUuidV7 windowId).map fun id =>
    { number := 0, firstId := some id, previousId := none, id := some id }

variable (rolloutItems : List (RolloutItem Value))

def initialWindow : Option ReconstructedWindow :=
  let hasLegacyCompactionWithoutWindowNumber := rolloutItems.any fun
    | .compacted compacted => compacted.windowNumber.isNone
    | _ => false
  if hasLegacyCompactionWithoutWindowNumber then none
  else rolloutItems.findSome? fun
    | .sessionMeta contextWindowId =>
      contextWindowId.bind (reconstructedWindowFromSessionContextWindow env)
    | _ => none

def fallbackWindowNumber : ℕ :=
  rolloutItems.countP fun
    | .compacted _ => true
    | _ => false

/-- The scan of `reconstruct_history_from_rollout`, with what follows the loop -/
def reverseScan : ReverseScan Value :=
  (scanBack env [] rolloutItems { rolloutSuffix := rolloutItems }).finish

/-- What follows the scan in `reconstruct_history_from_rollout` -/
def reconstructFromScan (scan : ReverseScan Value) (rolloutItems : List (RolloutItem Value)) :
    RolloutReconstruction Value Snapshot :=
  let replay := replayForward env scan.baseReplacementHistory scan.rolloutSuffix
  let referenceContextItem :=
    match scan.referenceContextItem with
    | .neverSet | .cleared => none
    | .latest ctx => some ctx
  let window := (scan.window.or (initialWindow env rolloutItems)).getD
    { number := fallbackWindowNumber rolloutItems, firstId := none, previousId := none, id := none }
  { history := replay.history.items
    previousTurnSettings := scan.previousTurnSettings
    referenceContextItem := if replay.sawLegacyCompaction then none else referenceContextItem
    worldStateBaseline := scan.worldStateReplay.reverse.foldl (replayWorldState env) none
    windowNumber := window.number
    firstWindowId := window.firstId
    previousWindowId := window.previousId
    windowId := window.id }

def reconstructHistoryFromRollout : RolloutReconstruction Value Snapshot :=
  reconstructFromScan env (reverseScan env rolloutItems) rolloutItems

/-! ### Cutting the scan -/

lemma scanBack_append (newer older items : List (RolloutItem Value)) (scan : ReverseScan Value) :
    scanBack env newer (older ++ items) scan =
      scanBack env (items ++ newer) older (scanBack env newer items scan) := by
  induction older with
  | nil => rfl
  | cons item older ih => rw [List.cons_append, scanBack, scanBack, ih, List.append_assoc]

end Reconstruction

end Codex.Session
