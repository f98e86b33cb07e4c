import Codex.ThreadHistory.Changes

/-!
# Tracking changes does not change the turns

The builder records changes while a change set is active; what it does to the turns does not depend
on that. Nor does it depend on the ids that are drawn, as long as records are handled and the
messages of hook prompts have ids.

* `Builder.untracked_handleRecord`: one record;
* `Builder.handleRolloutItemWithChanges_eq`: the builder of the incremental history is that of the
  full replay.
-/

namespace Codex.ThreadHistory

open Codex.Lib Codex.Protocol

variable {Value : Type}

/-- The id of a message that is a hook prompt; `some none` if the message has none. -/
def RolloutItem.hookPromptId (env : HistoryEnv Value) : RolloutItem Value → Option (Option Text)
  | .responseItem (.message id role content _ _) =>
    if role = "user".toList then (Builder.hookPromptFragments env content).map fun _ => id
    else none
  | _ => none

/-- The id that the item brings. -/
def TurnItem.id : TurnItem → Option Text
  | plan id _ | sleep id _ => some id
  | other => none

/-- The id of the item that an event brings. -/
def EventMsg.itemId : EventMsg Value → Option Text
  | tool _ callId _ _ => some callId
  | guardianAssessment payload => payload.targetItemId
  | itemStarted _ item | itemCompleted _ item => item.id
  | _ => none

/-- The id of the item that a record brings. -/
def RolloutItem.itemId (env : HistoryEnv Value) : RolloutItem Value → Option Text
  | .eventMsg event => event.itemId
  | item => (item.hookPromptId env).join

/-- The id of the turn that a record starts. -/
def RolloutItem.startedTurnId : RolloutItem Value → Option Text
  | .eventMsg (.turnStarted turnId _) => some turnId
  | _ => none

namespace Builder

/-- The builder without its changes. -/
def untracked (builder : Builder Value) : Builder Value := { builder with activeChangeSet := none }

section untracked

variable (env : HistoryEnv Value) (draws draws' : Draws) {builder : Builder Value}
  (hindex : builder.nextRolloutIndex ≠ 0)
include hindex

lemma newTurn_eq (id : Option Text) :
    builder.newTurn draws id = builder.untracked.newTurn draws' id := by
  have hindex' : builder.untracked.nextRolloutIndex ≠ 0 := hindex
  rw [newTurn, newTurn, if_neg hindex, if_neg hindex']
  rfl

lemma ensureTurn_untracked :
    builder.untracked.ensureTurn draws' =
      ((builder.ensureTurn draws).1, (builder.ensureTurn draws).2.untracked) := by
  have hturn := newTurn_eq draws draws' hindex none
  rcases builder with ⟨turns, _ | turn, item, current, next, changes⟩
  · rw [ensureTurn, ensureTurn, hturn]
    rfl
  · rfl

variable (item : ThreadItem Value)

lemma untracked_pushItemInCurrentTurn
    : (builder.pushItemInCurrentTurn draws item).untracked =
      builder.untracked.pushItemInCurrentTurn draws' item := by
  rw [pushItemInCurrentTurn, pushItemInCurrentTurn, ensureTurn_untracked draws draws' hindex]
  rfl

lemma untracked_upsertItemInCurrentTurn
    : (builder.upsertItemInCurrentTurn draws item).untracked =
      builder.untracked.upsertItemInCurrentTurn draws' item := by
  rw [upsertItemInCurrentTurn, upsertItemInCurrentTurn, ensureTurn_untracked draws draws' hindex]
  rfl

omit hindex

lemma untracked_upsertItemInTurnId (turnId : Text) (item : ThreadItem Value) :
    (builder.upsertItemInTurnId turnId item).untracked =
      builder.untracked.upsertItemInTurnId turnId item := by
  have hcurrent : builder.untracked.currentTurn = builder.currentTurn := rfl
  have hturns : builder.untracked.turns = builder.turns := rfl
  rw [upsertItemInTurnId, upsertItemInTurnId, hcurrent, hturns]
  rcases builder.currentTurn.filter _ with _ | turn
  · rcases updateTurn turnId _ builder.turns with _ | ⟨turn, turns⟩
    · rfl
    · rfl
  · rfl

lemma untracked_upsertItemInTurnIdOrCurrent (hindex : builder.nextRolloutIndex ≠ 0)
    (turnId : Text) (item : ThreadItem Value) :
    (builder.upsertItemInTurnIdOrCurrent draws turnId item).untracked =
      builder.untracked.upsertItemInTurnIdOrCurrent draws' turnId item := by
  rw [upsertItemInTurnIdOrCurrent, upsertItemInTurnIdOrCurrent]
  split_ifs
  · exact untracked_upsertItemInCurrentTurn draws draws' hindex item
  · exact untracked_upsertItemInTurnId turnId item

lemma untracked_finishCurrentTurn :
    builder.finishCurrentTurn.untracked = builder.untracked.finishCurrentTurn := by
  rcases builder with ⟨turns, _ | turn, item, current, next, changes⟩
  · rfl
  · rw [finishCurrentTurn, finishCurrentTurn]
    simp only [untracked]
    split_ifs
    · rfl
    · rfl

lemma nextRolloutIndex_finishCurrentTurn :
    builder.finishCurrentTurn.nextRolloutIndex = builder.nextRolloutIndex := by
  rw [finishCurrentTurn]
  split
  · rfl
  · split_ifs
    · rfl
    · rfl

lemma untracked_handleUserMessage (hindex : builder.nextRolloutIndex ≠ 0)
    (payload : UserMessageEvent Value) : (builder.handleUserMessage draws payload).untracked =
      builder.untracked.handleUserMessage draws' payload := by
  have hcurrent : builder.untracked.currentTurn = builder.currentTurn := rfl
  have hnext : builder.nextItemId.2.nextRolloutIndex ≠ 0 := hindex
  rw [handleUserMessage, handleUserMessage, hcurrent]
  rcases builder.currentTurn with _ | turn
  · exact untracked_pushItemInCurrentTurn draws draws' hnext _
  · simp only
    split_ifs
    · rw [← untracked_finishCurrentTurn]
      have hindex' : builder.finishCurrentTurn.nextItemId.2.nextRolloutIndex ≠ 0 := by
        rwa [nextItemId, nextRolloutIndex_finishCurrentTurn]
      exact untracked_pushItemInCurrentTurn draws draws' hindex' _
    · exact untracked_pushItemInCurrentTurn draws draws' hnext _

lemma nextRolloutIndex_ensureTurn :
    (builder.ensureTurn draws).2.nextRolloutIndex = builder.nextRolloutIndex := by
  rcases builder with ⟨turns, _ | turn, item, current, next, changes⟩
  · rfl
  · rfl

variable (hindex : builder.nextRolloutIndex ≠ 0)
include hindex

lemma untracked_handleReasoningText (add : List Text × List Text → List Text × List Text) :
    (builder.handleReasoningText draws add).untracked =
      builder.untracked.handleReasoningText draws' add := by
  have hnext : (builder.ensureTurn draws).2.nextRolloutIndex = builder.nextRolloutIndex :=
    nextRolloutIndex_ensureTurn draws
  rw [handleReasoningText, handleReasoningText, ensureTurn_untracked draws draws' hindex]
  rcases hensure : builder.ensureTurn draws with ⟨turn, ensured⟩
  rw [hensure] at hnext
  have hindex' : ensured.nextItemId.2.nextRolloutIndex ≠ 0 := fun h => hindex (hnext.symm.trans h)
  have hpush := untracked_pushItemInCurrentTurn draws draws' hindex'
    (.reasoning (itemId ensured.nextItemIndex) (add ([], [])).1 (add ([], [])).2)
  simp only
  rcases turn.items.getLast? with _ | _ | _ | _ | _ | ⟨id, summary, content⟩ | _ | _ | _ | _ | _
  all_goals first | exact hpush | rfl

lemma untracked_handleTool (event : ToolEvent) (callId turnId : Text) (payload : Value) :
    (builder.handleTool env draws event callId turnId payload).untracked =
      builder.untracked.handleTool env draws' event callId turnId payload := by
  rw [handleTool, handleTool]
  rcases event.route with _ | _ | _
  · exact untracked_upsertItemInCurrentTurn draws draws' hindex _
  · exact untracked_upsertItemInTurnId turnId _
  · exact untracked_upsertItemInTurnIdOrCurrent draws draws' hindex turnId _

lemma untracked_handleGuardianAssessment (payload : GuardianAssessmentEvent Value) :
    (builder.handleGuardianAssessment env draws payload).untracked =
      builder.untracked.handleGuardianAssessment env draws' payload := by
  rw [handleGuardianAssessment, handleGuardianAssessment]
  split_ifs
  · rfl
  · rcases buildItemFromGuardianEvent env payload with _ | item
    · rfl
    · exact untracked_upsertItemInTurnIdOrCurrent draws draws' hindex payload.turnId item

omit hindex

lemma untracked_handleTurnItem (turnId : Text) (item : TurnItem) :
    (builder.handleTurnItem turnId item).untracked =
      builder.untracked.handleTurnItem turnId item := by
  rcases item with ⟨id, text⟩ | ⟨id, durationMs⟩ | _
  · rw [handleTurnItem, handleTurnItem]
    split_ifs
    · rfl
    · exact untracked_upsertItemInTurnId turnId _
  · exact untracked_upsertItemInTurnId turnId _
  · rfl

lemma untracked_handleError (message : Text) (codexErrorInfo : Option (CodexErrorInfo Value)) :
    (builder.handleError message codexErrorInfo).untracked =
      builder.untracked.handleError message codexErrorInfo := by
  rcases builder with ⟨turns, _ | turn, item, current, next, changes⟩
  · rw [handleError, handleError]
    split_ifs
    · rfl
    · rfl
  · rw [handleError, handleError]
    split_ifs
    · rfl
    · rfl

lemma untracked_updateTurnOrCurrent (turnId : Option Text) (closes : Bool)
    (update : Turn Value → Turn Value) :
    (builder.updateTurnOrCurrent turnId closes update).untracked =
      builder.untracked.updateTurnOrCurrent turnId closes update := by
  have hcurrent : builder.untracked.currentTurn = builder.currentTurn := rfl
  have hturns : builder.untracked.turns = builder.turns := rfl
  have hclose : ∀ turn : PendingTurn Value,
      (if closes then (builder.updateCurrentTurn turn update).finishCurrentTurn
        else builder.updateCurrentTurn turn update).untracked =
      if closes then (builder.untracked.updateCurrentTurn turn update).finishCurrentTurn
        else builder.untracked.updateCurrentTurn turn update := by
    intro turn
    split_ifs
    · exact untracked_finishCurrentTurn
    · rfl
  simp only [updateTurnOrCurrent, hcurrent, hturns]
  rcases turnId.bind fun turnId => builder.currentTurn.filter _ with _ | turn
  · rcases turnId.bind fun turnId => updateTurn turnId update builder.turns with _ | ⟨turn, turns⟩
    · rcases builder.currentTurn with _ | turn
      · rfl
      · exact hclose turn
    · rfl
  · exact hclose turn

lemma untracked_handleTurnStarted (hindex : builder.nextRolloutIndex ≠ 0) (turnId : Text)
    (startedAt : Option ℤ) : (builder.handleTurnStarted draws turnId startedAt).untracked =
      builder.untracked.handleTurnStarted draws' turnId startedAt := by
  have hindex' : builder.finishCurrentTurn.nextRolloutIndex ≠ 0 := by
    rwa [nextRolloutIndex_finishCurrentTurn]
  rw [handleTurnStarted, handleTurnStarted, ← untracked_finishCurrentTurn,
    newTurn_eq draws draws' hindex']
  rfl

lemma untracked_handleCompacted (hindex : builder.nextRolloutIndex ≠ 0) :
    (builder.handleCompacted draws).untracked = builder.untracked.handleCompacted draws' := by
  rw [handleCompacted, handleCompacted, ensureTurn_untracked draws draws' hindex]
  rfl

lemma untracked_handleThreadRollback (numTurns : ℕ) :
    (builder.handleThreadRollback numTurns).untracked =
      builder.untracked.handleThreadRollback numTurns := by
  rw [handleThreadRollback, handleThreadRollback, ← untracked_finishCurrentTurn]
  rfl

lemma untracked_handleResponseItem (hindex : builder.nextRolloutIndex ≠ 0)
    {item : ResponseItem Value}
    (hhook : RolloutItem.hookPromptId env (.responseItem item) ≠ some none) :
    (builder.handleResponseItem env draws item).untracked =
      builder.untracked.handleResponseItem env draws' item := by
  rcases item with _ | ⟨id, role, content, phase, metadata⟩ | _
  case message =>
    rw [RolloutItem.hookPromptId] at hhook
    rw [handleResponseItem, handleResponseItem]
    split_ifs with hrole
    · rw [if_pos hrole] at hhook
      rcases hfragments : hookPromptFragments env content with _ | fragments
      · rfl
      · rcases id with _ | id
        · exact absurd (by rw [hfragments]; rfl) hhook
        · exact untracked_pushItemInCurrentTurn draws draws' hindex _
    · rfl
  all_goals rfl

lemma untracked_handleEvent (hindex : builder.nextRolloutIndex ≠ 0) (event : EventMsg Value) :
    (builder.handleEvent env draws event).untracked =
      builder.untracked.handleEvent env draws' event := by
  have hnext : builder.nextItemId.2.nextRolloutIndex ≠ 0 := hindex
  rcases event with payload | ⟨message, phase, memoryCitation⟩ | text | text |
    ⟨event, callId, turnId, payload⟩ | payload | _ | hint | explanation | ⟨turnId, item⟩ |
    ⟨turnId, item⟩ | ⟨message, info⟩ | numTurns | ⟨turnId, completedAt, durationMs⟩ |
    ⟨turnId, startedAt⟩ | ⟨turnId, completedAt, durationMs⟩ | _
  · exact untracked_handleUserMessage draws draws' hindex payload
  · rw [handleEvent, handleEvent, handleAgentMessage, handleAgentMessage]
    split_ifs
    · rfl
    · exact untracked_pushItemInCurrentTurn draws draws' hnext _
  · rw [handleEvent, handleEvent, handleAgentReasoning, handleAgentReasoning]
    split_ifs
    · rfl
    · exact untracked_handleReasoningText draws draws' hindex _
  · rw [handleEvent, handleEvent, handleAgentReasoningRawContent, handleAgentReasoningRawContent]
    split_ifs
    · rfl
    · exact untracked_handleReasoningText draws draws' hindex _
  · exact untracked_handleTool env draws draws' hindex event callId turnId payload
  · exact untracked_handleGuardianAssessment env draws draws' hindex payload
  · exact untracked_pushItemInCurrentTurn draws draws' hnext _
  · exact untracked_pushItemInCurrentTurn draws draws' hnext _
  · exact untracked_pushItemInCurrentTurn draws draws' hnext _
  · exact untracked_handleTurnItem turnId item
  · exact untracked_handleTurnItem turnId item
  · exact untracked_handleError message info
  · exact untracked_handleThreadRollback numTurns
  · exact untracked_updateTurnOrCurrent turnId false _
  · exact untracked_handleTurnStarted draws draws' hindex turnId startedAt
  · exact untracked_updateTurnOrCurrent (some turnId) true _
  · rfl

/-- **Tracking does not change the turns**, and neither do the draws. -/
theorem untracked_handleRolloutItem {item : RolloutItem Value}
    (hhook : item.hookPromptId env ≠ some none) :
    (builder.handleRolloutItem env draws item).untracked =
      builder.untracked.handleRolloutItem env draws' item := by
  have hindex : builder.nextRolloutIndex + 1 ≠ 0 := Nat.succ_ne_zero _
  rw [handleRolloutItem, handleRolloutItem]
  rcases item with _ | item | _ | _ | compacted | _ | _ | event
  case eventMsg => exact untracked_handleEvent env draws draws' hindex event
  case compacted => exact untracked_handleCompacted draws draws' hindex
  case responseItem => exact untracked_handleResponseItem env draws draws' hindex hhook
  all_goals rfl

/-- The builder of the incremental history is that of the full replay. -/
theorem handleRolloutItemWithChanges_snd (huntracked : builder.activeChangeSet = none)
    {item : RolloutItem Value} (hhook : item.hookPromptId env ≠ some none) :
    (builder.handleRolloutItemWithChanges env draws item).2 =
      builder.handleRolloutItem env draws' item := by
  have hbuilder : { builder with activeChangeSet := some .empty }.untracked = builder := by
    rw [untracked, ← huntracked]
  have heq : ({ builder with activeChangeSet := some .empty }.handleRolloutItem env draws
      item).untracked = _ := untracked_handleRolloutItem env draws draws' hhook
  rw [hbuilder] at heq
  exact heq

end untracked

end Builder

end Codex.ThreadHistory
