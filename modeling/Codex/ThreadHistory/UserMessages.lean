import Codex.ThreadHistory.Handling

/-!
# The user messages of the turns

What a client shows of a thread's user messages, and what one record does to them: a message is
added at the end; the item of another record replaces the first item of its turn that has its id,
and with it a user message, if that is one; a rollback drops the messages of the last turns.
-/

namespace Codex.ThreadHistory

open Codex.Lib Codex.Protocol

variable {Value : Type}

/-! ### User messages -/

/-- A user message as a client shows it. -/
structure ShownMessage (Value : Type) where
  clientId : Option Text
  content : List (UserInput Value)
  deriving DecidableEq

/-- The user message that an item is. -/
def ThreadItem.shownMessage : ThreadItem Value → Option (ShownMessage Value)
  | .userMessage _ clientId content => some ⟨clientId, content⟩
  | _ => none

/-- The user messages of turns, in order. -/
def shownMessages (turns : List (Turn Value)) : List (ShownMessage Value) :=
  turns.flatMap fun turn => turn.items.filterMap ThreadItem.shownMessage

/-- The message of an event as a client shows it. -/
def UserMessageEvent.shown (payload : UserMessageEvent Value) : ShownMessage Value :=
  ⟨payload.clientId, Builder.buildUserInputs payload⟩

/-- The user message that a record brings. -/
def RolloutItem.userMessageEvent : RolloutItem Value → Option (UserMessageEvent Value)
  | .eventMsg (.userMessage payload) => some payload
  | _ => none

/-- The records that stand between rollbacks where nothing is compacted. -/
def RolloutItem.isPlain : RolloutItem Value → Bool
  | .eventMsg (.threadRolledBack _) | .compacted _ => false
  | _ => true

/-! ### Items that are replaced -/

/-- The item that the record of an item's start or end brings, where it is upserted. -/
def TurnItem.upsertedItem : TurnItem → Option (ThreadItem Value)
  | .plan id text => if text.isEmpty then none else some (.plan id text)
  | .sleep id durationMs => some (.sleep id durationMs)
  | .other => none

/-- The item that an event upserts into a turn. -/
def EventMsg.upsertedItem (env : HistoryEnv Value) : EventMsg Value → Option (ThreadItem Value)
  | .tool event callId _ payload =>
    some (.tool event.itemKind callId (env.toolFields event payload))
  | .guardianAssessment payload =>
    if payload.status = .approved then none else Builder.buildItemFromGuardianEvent env payload
  | .itemStarted _ item | .itemCompleted _ item => item.upsertedItem
  | _ => none

namespace Builder

variable (builder : Builder Value)

/-- The items of the current turn. -/
def currentItems : List (ThreadItem Value) :=
  (builder.currentTurn.map (·.items)).getD []

/-- The items of the turn that has the id: the current one, or the first. -/
def itemsOfTurn (turnId : Text) : List (ThreadItem Value) :=
  match builder.currentTurn.filter (·.id = turnId) with
  | some turn => turn.items
  | none => ((builder.turns.find? (·.id = turnId)).map Turn.items).getD []

/-- The items among which that of an event looks for its id. -/
def upsertedAmong : EventMsg Value → List (ThreadItem Value)
  | .tool event _ turnId _ =>
    match event.route with
    | .current => builder.currentItems
    | .turnId => builder.itemsOfTurn turnId
    | .turnIdOrCurrent =>
      if turnId.isEmpty then builder.currentItems else builder.itemsOfTurn turnId
  | .guardianAssessment payload =>
    if payload.turnId.isEmpty then builder.currentItems else builder.itemsOfTurn payload.turnId
  | .itemStarted turnId _ | .itemCompleted turnId _ => builder.itemsOfTurn turnId
  | _ => []

/-- The items hold a user message first under the id of the new one. -/
def hidesMessage (items : List (ThreadItem Value)) (item : ThreadItem Value) : Bool :=
  ((items.find? (·.id = item.id)).bind ThreadItem.shownMessage).isSome

/-- The record brings an item that takes the place of a user message. -/
def replacesUserMessage (env : HistoryEnv Value) (builder : Builder Value) :
    RolloutItem Value → Bool
  | .eventMsg event =>
    (event.upsertedItem env).any fun item => hidesMessage (builder.upsertedAmong event) item
  | _ => false

/-- The user messages that `finish` returns. -/
def userMessages : List (ShownMessage Value) :=
  shownMessages builder.allTurns

/-! ### What one record does -/

/-- A step adds messages at the end, or it loses one. -/
def Shows (before after : List (ShownMessage Value)) (added : List (ShownMessage Value))
    (replaces : Bool) : Prop :=
  if replaces then after.length + 1 = before.length ∧ added = [] else after = before ++ added

lemma Shows.nothing (messages : List (ShownMessage Value)) :
    Shows messages messages [] false := (List.append_nil _).symm

lemma Shows.append_left {before after : List (ShownMessage Value)} {replaces : Bool}
    (h : Shows before after [] replaces) (older newer : List (ShownMessage Value)) :
    Shows (older ++ before ++ newer) (older ++ after ++ newer) [] replaces := by
  cases replaces with
  | false =>
    obtain rfl : after = before := h.trans (List.append_nil _)
    exact Shows.nothing _
  | true =>
    obtain ⟨hlength, -⟩ : after.length + 1 = before.length ∧ _ := h
    refine ⟨?_, rfl⟩
    rw [List.length_append, List.length_append, List.length_append, List.length_append]
    omega

/-- An item that is no user message, among the items of a turn. -/
theorem shows_upsertTurnItem {item : ThreadItem Value} (hitem : item.shownMessage = none)
    (items : List (ThreadItem Value)) :
    Shows (items.filterMap ThreadItem.shownMessage)
      ((upsertTurnItem items item).filterMap ThreadItem.shownMessage) []
      (hidesMessage items item) := by
  induction items with
  | nil =>
    have hnone : (upsertTurnItem [] item).filterMap ThreadItem.shownMessage = [] :=
      List.filterMap_cons_none hitem
    rw [hnone]
    exact Shows.nothing _
  | cons other items ih =>
    by_cases hid : other.id = item.id
    · have hfind : hidesMessage (other :: items) item = other.shownMessage.isSome := by
        rw [hidesMessage, List.find?_cons_of_pos (by simpa using hid)]
        rfl
      rw [hfind, upsertTurnItem, upsert, if_pos hid, List.filterMap_cons_none hitem]
      rcases hother : other.shownMessage with _ | message
      · rw [List.filterMap_cons_none hother]
        exact Shows.nothing _
      · rw [List.filterMap_cons_some hother]
        exact ⟨rfl, rfl⟩
    · have hfind : hidesMessage (other :: items) item = hidesMessage items item := by
        rw [hidesMessage, List.find?_cons_of_neg (by simpa using hid)]
        rfl
      have hupsert : upsertTurnItem (other :: items) item =
          [other] ++ upsertTurnItem items item := by
        rw [upsertTurnItem, upsert, if_neg hid]
        rfl
      have happend := ih.append_left ([other].filterMap ThreadItem.shownMessage) []
      rw [List.append_nil, List.append_nil, ← List.filterMap_append,
        ← List.filterMap_append] at happend
      rw [hfind, hupsert]
      exact happend

/-! ### The parts of the handlers -/

section parts

variable (env : HistoryEnv Value) {draws : Draws} {builder : Builder Value}

lemma shownMessages_append (older newer : List (Turn Value)) :
    shownMessages (older ++ newer) = shownMessages older ++ shownMessages newer :=
  List.flatMap_append

variable (builder)

lemma userMessages_eq : builder.userMessages =
    shownMessages builder.turns ++ builder.currentItems.filterMap ThreadItem.shownMessage := by
  rcases builder with ⟨turns, _ | turn, next, i, j, changes⟩
  · exact shownMessages_append turns []
  · refine (shownMessages_append turns [turn.toTurn]).trans ?_
    exact congrArg (shownMessages turns ++ ·) (List.append_nil _)

/-- A turn that is dropped when it ends has no items. -/
theorem shownMessages_finishCurrentTurn :
    shownMessages builder.finishCurrentTurn.turns = builder.userMessages := by
  rcases builder with ⟨turns, _ | turn, next, i, j, changes⟩
  · rw [userMessages_eq]
    exact (List.append_nil _).symm
  · rw [userMessages_eq, finishCurrentTurn]
    simp only
    split_ifs with hdropped
    · rw [Bool.and_eq_true, Bool.and_eq_true, List.isEmpty_iff] at hdropped
      change shownMessages turns = shownMessages turns ++ turn.items.filterMap _
      rw [hdropped.1.1]
      exact (List.append_nil _).symm
    · refine (shownMessages_append turns [turn.toTurn]).trans ?_
      exact congrArg (shownMessages turns ++ ·) (List.append_nil _)

lemma currentItems_finishCurrentTurn : builder.finishCurrentTurn.currentItems = [] := by
  rcases builder with ⟨turns, _ | turn, next, i, j, changes⟩
  · rfl
  · rw [finishCurrentTurn]
    simp only
    split_ifs
    · rfl
    · rfl

lemma turns_finishCurrentTurn_setIndex (current next : ℕ) :
    { builder with
      currentRolloutIndex := current
      nextRolloutIndex := next }.finishCurrentTurn.turns = builder.finishCurrentTurn.turns := by
  rcases builder with ⟨turns, _ | turn, nextItem, i, j, changes⟩
  · rfl
  · rw [finishCurrentTurn, finishCurrentTurn]
    simp only
    split_ifs
    · rfl
    · rfl

@[simp] lemma userMessages_finishCurrentTurn :
    builder.finishCurrentTurn.userMessages = builder.userMessages := by
  rw [userMessages_eq, currentItems_finishCurrentTurn, shownMessages_finishCurrentTurn]
  exact List.append_nil _

lemma ensureTurn_spec (draws : Draws) (builder : Builder Value) :
    (builder.ensureTurn draws).1.items = builder.currentItems ∧
      (builder.ensureTurn draws).2.turns = builder.turns ∧
      (builder.ensureTurn draws).2.currentItems = builder.currentItems := by
  rcases builder with ⟨turns, _ | turn, next, i, j, changes⟩
  · exact ⟨rfl, rfl, rfl⟩
  · exact ⟨rfl, rfl, rfl⟩

lemma shows_pushItemInCurrentTurn (draws : Draws) (builder : Builder Value)
    (item : ThreadItem Value) :
    Shows builder.userMessages (builder.pushItemInCurrentTurn draws item).userMessages
      item.shownMessage.toList false := by
  obtain ⟨hitems, hturns, -⟩ := ensureTurn_spec draws builder
  have hpushed : (builder.pushItemInCurrentTurn draws item).userMessages =
      shownMessages (builder.ensureTurn draws).2.turns ++
        ((builder.ensureTurn draws).1.items ++ [item]).filterMap ThreadItem.shownMessage :=
    userMessages_eq _
  change _ = _
  rw [hpushed, hturns, hitems, List.filterMap_append, ← List.append_assoc, ← userMessages_eq]
  cases hshown : item.shownMessage with
  | none =>
    rw [List.filterMap_cons_none hshown]
    rfl
  | some message =>
    rw [List.filterMap_cons_some hshown]
    rfl

lemma shows_upsertItemInCurrentTurn (draws : Draws) (builder : Builder Value)
    {item : ThreadItem Value} (hitem : item.shownMessage = none) :
    Shows builder.userMessages (builder.upsertItemInCurrentTurn draws item).userMessages []
      (hidesMessage builder.currentItems item) := by
  obtain ⟨hitems, hturns, -⟩ := ensureTurn_spec draws builder
  have hupserted : (builder.upsertItemInCurrentTurn draws item).userMessages =
      shownMessages (builder.ensureTurn draws).2.turns ++
        (upsertTurnItem (builder.ensureTurn draws).1.items item).filterMap
          ThreadItem.shownMessage := userMessages_eq _
  have hshows := (shows_upsertTurnItem hitem builder.currentItems).append_left
    (shownMessages builder.turns) []
  rw [List.append_nil, List.append_nil] at hshows
  rw [hupserted, hturns, hitems, userMessages_eq]
  exact hshows

/-- The first turn with the id, with its neighbours. -/
theorem updateTurn_eq (turnId : Text) (update : Turn Value → Turn Value)
    (turns : List (Turn Value)) :
    (turns.find? (·.id = turnId) = none ∧ updateTurn turnId update turns = none) ∨
      ∃ before turn after, turns = before ++ turn :: after ∧
        turns.find? (·.id = turnId) = some turn ∧
        updateTurn turnId update turns = some (update turn, before ++ update turn :: after) := by
  induction turns with
  | nil => exact .inl ⟨rfl, rfl⟩
  | cons turn turns ih =>
    by_cases hid : turn.id = turnId
    · refine .inr ⟨[], turn, turns, rfl, ?_, ?_⟩
      · exact List.find?_cons_of_pos (by simpa using hid)
      · rw [updateTurn, if_pos hid]
        rfl
    · have hfind : (turn :: turns).find? (·.id = turnId) = turns.find? (·.id = turnId) :=
        List.find?_cons_of_neg (by simpa using hid)
      rw [hfind, updateTurn, if_neg hid]
      rcases ih with ⟨hnone, hupdate⟩ | ⟨before, found, after, hturns, hsome, hupdate⟩
      · exact .inl ⟨hnone, by rw [hupdate]; rfl⟩
      · refine .inr ⟨turn :: before, found, after, ?_, hsome, ?_⟩
        · rw [hturns, List.cons_append]
        · rw [hupdate]
          rfl

lemma shows_upsertItemInTurnId (turnId : Text)
    {item : ThreadItem Value} (hitem : item.shownMessage = none) :
    Shows builder.userMessages (builder.upsertItemInTurnId turnId item).userMessages []
      (hidesMessage (builder.itemsOfTurn turnId) item) := by
  rw [upsertItemInTurnId, itemsOfTurn]
  generalize hfilter : builder.currentTurn.filter _ = filtered
  rcases filtered with _ | turn
  · simp only
    rcases updateTurn_eq turnId (fun turn => { turn with items := upsertTurnItem turn.items item })
      builder.turns with ⟨hnone, hupdate⟩ | ⟨before, turn, after, hturns, hfind, hupdate⟩
    · rw [hnone, hupdate]
      exact Shows.nothing _
    · rw [hfind, hupdate]
      have hshows := (shows_upsertTurnItem hitem turn.items).append_left (shownMessages before)
        (shownMessages after ++ builder.currentItems.filterMap ThreadItem.shownMessage)
      have hsplit : ∀ turn : Turn Value, shownMessages (before ++ turn :: after) =
          shownMessages before ++ turn.items.filterMap ThreadItem.shownMessage ++
            shownMessages after := by
        intro turn
        rw [shownMessages_append, List.append_assoc]
        rfl
      simp only
      rw [userMessages_eq, userMessages_eq, hturns, hsplit]
      change Shows _ (shownMessages (before ++ _ :: after) ++ builder.currentItems.filterMap _) _ _
      rw [hsplit, List.append_assoc _ (shownMessages after),
        List.append_assoc _ (shownMessages after)]
      exact hshows
  · obtain ⟨hcurrent, -⟩ := Option.filter_eq_some_iff.mp hfilter
    have hitems : builder.currentItems = turn.items := by
      rw [currentItems, hcurrent]
      rfl
    have hshows := (shows_upsertTurnItem hitem turn.items).append_left
      (shownMessages builder.turns) []
    rw [List.append_nil, List.append_nil] at hshows
    rw [userMessages_eq, userMessages_eq, hitems]
    exact hshows

end parts

/-! ### Every record -/

section records

variable (env : HistoryEnv Value) (draws : Draws) (builder : Builder Value)

lemma shows_handleUserMessage (payload : UserMessageEvent Value) :
    Shows builder.userMessages (builder.handleUserMessage draws payload).userMessages
      [payload.shown] false := by
  have hpush : ∀ builder' : Builder Value, builder'.userMessages = builder.userMessages →
      Shows builder.userMessages
        (builder'.nextItemId.2.pushItemInCurrentTurn draws (.userMessage builder'.nextItemId.1
          payload.clientId (buildUserInputs payload))).userMessages [payload.shown] false := by
    intro builder' heq
    rw [← heq]
    exact shows_pushItemInCurrentTurn draws builder'.nextItemId.2 _
  rw [handleUserMessage]
  apply hpush
  split
  next =>
    split_ifs
    · exact userMessages_finishCurrentTurn builder
    · rfl
  next => rfl

/-- An item of another kind that is added at the end of the turn. -/
theorem shows_pushOther {item : ThreadItem Value} (hitem : item.shownMessage = none) :
    Shows builder.userMessages (builder.pushItemInCurrentTurn draws item).userMessages []
      false := by
  have hpush := shows_pushItemInCurrentTurn draws builder item
  rw [hitem] at hpush
  exact hpush

lemma shows_handleReasoningText (add : List Text × List Text → List Text × List Text) :
    Shows builder.userMessages (builder.handleReasoningText draws add).userMessages [] false := by
  rw [handleReasoningText]
  simp only
  split
  next id summary content hlast =>
    obtain ⟨hitems, hturns, -⟩ := ensureTurn_spec draws builder
    have hsplit := List.dropLast_append_getLast? _ hlast
    have hreasoning : ∀ summary' content', ((builder.ensureTurn draws).1.items.dropLast ++
        [ThreadItem.reasoning id summary' content']).filterMap ThreadItem.shownMessage =
          builder.currentItems.filterMap ThreadItem.shownMessage := by
      intro summary' content'
      rw [← hitems, ← congrArg (List.filterMap ThreadItem.shownMessage) hsplit,
        List.filterMap_append, List.filterMap_append]
      rfl
    rw [userMessages_eq, userMessages_eq, ← hreasoning, ← hturns]
    exact Shows.nothing _
  next =>
    rw [push_ensureTurn]
    exact shows_pushOther draws builder.nextItemId.2 rfl

lemma shows_handleTool (event : ToolEvent) (callId turnId : Text) (payload : Value) :
    Shows builder.userMessages
      (builder.handleTool env draws event callId turnId payload).userMessages []
      (replacesUserMessage env builder (.eventMsg (.tool event callId turnId payload))) := by
  rw [handleTool, replacesUserMessage, EventMsg.upsertedItem, Option.any_some, upsertedAmong]
  cases event.route with
  | current => exact shows_upsertItemInCurrentTurn draws builder rfl
  | turnId => exact shows_upsertItemInTurnId builder turnId rfl
  | turnIdOrCurrent =>
    simp only [upsertItemInTurnIdOrCurrent]
    split_ifs
    · exact shows_upsertItemInCurrentTurn draws builder rfl
    · exact shows_upsertItemInTurnId builder turnId rfl

lemma shows_handleGuardianAssessment (payload : GuardianAssessmentEvent Value) :
    Shows builder.userMessages (builder.handleGuardianAssessment env draws payload).userMessages []
      (replacesUserMessage env builder (.eventMsg (.guardianAssessment payload))) := by
  have hshows : ∀ item : ThreadItem Value, item.shownMessage = none → Shows builder.userMessages
        (builder.upsertItemInTurnIdOrCurrent draws payload.turnId item).userMessages []
        (hidesMessage (if payload.turnId.isEmpty then builder.currentItems
          else builder.itemsOfTurn payload.turnId) item) := by
    intro item hitem
    rw [upsertItemInTurnIdOrCurrent]
    split_ifs
    · exact shows_upsertItemInCurrentTurn draws builder hitem
    · exact shows_upsertItemInTurnId builder payload.turnId hitem
  rw [handleGuardianAssessment, replacesUserMessage, EventMsg.upsertedItem, upsertedAmong]
  by_cases happroved : payload.status = .approved
  · rw [if_pos happroved, if_pos happroved]
    exact Shows.nothing _
  · rw [if_neg happroved, if_neg happroved]
    rcases hbuilt : buildItemFromGuardianEvent env payload with _ | item
    · exact Shows.nothing _
    · apply hshows item
      rw [buildItemFromGuardianEvent] at hbuilt
      split_ifs at hbuilt
      obtain ⟨id, -, rfl⟩ := Option.map_eq_some_iff.mp hbuilt
      rfl

lemma shows_handleTurnItem (turnId : Text) (item : TurnItem) :
    Shows builder.userMessages (builder.handleTurnItem turnId item).userMessages []
      ((item.upsertedItem : Option (ThreadItem Value)).any
        fun item => hidesMessage (builder.itemsOfTurn turnId) item) := by
  cases item with
  | plan id text =>
    rw [handleTurnItem, TurnItem.upsertedItem]
    split_ifs
    · exact Shows.nothing _
    · exact shows_upsertItemInTurnId builder turnId rfl
  | sleep id durationMs => exact shows_upsertItemInTurnId builder turnId rfl
  | other => exact Shows.nothing _

variable {update : Turn Value → Turn Value}

lemma userMessages_updateCurrentTurn {turn : PendingTurn Value}
    (hcurrent : builder.currentTurn = some turn)
    (hitems : ∀ turn, (update turn).items = turn.items) :
    (builder.updateCurrentTurn turn update).userMessages = builder.userMessages := by
  have hupdated : (builder.updateCurrentTurn turn update).currentItems = builder.currentItems := by
    rw [currentItems, currentItems, hcurrent]
    exact hitems turn.toTurn
  rw [userMessages_eq, userMessages_eq, hupdated]
  rfl

lemma userMessages_updateTurnOrCurrent (turnId : Option Text) (closes : Bool)
    (hitems : ∀ turn, (update turn).items = turn.items) :
    (builder.updateTurnOrCurrent turnId closes update).userMessages = builder.userMessages := by
  rcases builder.updateTurnOrCurrent_cases turnId closes update with
    ⟨turn, hturn, heq⟩ | ⟨id, turn', turns', hupdate, heq⟩ | heq
  · have hupdated := userMessages_updateCurrentTurn builder hturn hitems
    rw [heq]
    split_ifs
    · rw [userMessages_finishCurrentTurn, hupdated]
    · exact hupdated
  · obtain ⟨before, turn, after, hturns, rfl, rfl⟩ := Handling.exists_of_updateTurn hupdate
    have hshown : shownMessages (before ++ update turn :: after) =
        shownMessages (before ++ turn :: after) := by
      rw [shownMessages_append, shownMessages_append]
      simp only [shownMessages, List.flatMap_cons, hitems]
    rw [heq, userMessages_eq, userMessages_eq, hturns, ← hshown]
    rfl
  · rw [heq]

/-- **A rollback** drops the messages of the last turns. -/
theorem userMessages_handleThreadRollback (numTurns : ℕ) :
    (builder.handleThreadRollback numTurns).userMessages =
      builder.userMessages.take (builder.userMessages.length -
        (shownMessages (builder.finishCurrentTurn.turns.rtake numTurns)).length) := by
  set turns := builder.finishCurrentTurn.turns with hturns
  have hsplit : builder.userMessages = shownMessages (turns.take (turns.length - numTurns)) ++
      shownMessages (turns.rtake numTurns) := by
    rw [← shownMessages_finishCurrentTurn, List.rtake, ← shownMessages_append,
      List.take_append_drop]
  have hrolled : (builder.handleThreadRollback numTurns).userMessages =
      shownMessages (turns.take (turns.length - numTurns)) := by
    rw [userMessages_eq, handleThreadRollback]
    change _ ++ builder.finishCurrentTurn.currentItems.filterMap _ = _
    rw [currentItems_finishCurrentTurn]
    exact List.append_nil _
  rw [hrolled, hsplit, List.length_append, Nat.add_sub_cancel, List.take_left]

/-- A record that is no marker: its message is added at the end, or its item takes the place of a
message. -/
theorem shows_handleRecord {record : RolloutItem Value} (hplain : record.isPlain = true) :
    Shows builder.userMessages (builder.handleRecord env draws record).userMessages
      (record.userMessageEvent.map UserMessageEvent.shown).toList
      (replacesUserMessage env builder record) := by
  have hsame : ∀ builder' : Builder Value, builder'.userMessages = builder.userMessages →
      Shows builder.userMessages builder'.userMessages [] false := by
    intro builder' heq
    rw [heq]
    exact Shows.nothing _
  rcases record with _ | item | _ | _ | compacted | _ | _ | event
  case compacted => exact absurd hplain (by simp [RolloutItem.isPlain])
  case responseItem =>
    rcases item with _ | ⟨id, role, content, phase, metadata⟩ | _
    case message =>
      rw [handleRecord, handleResponseItem]
      split_ifs
      · cases hookPromptFragments env content with
        | none => exact Shows.nothing _
        | some fragments => exact shows_pushOther draws builder rfl
      · exact Shows.nothing _
    all_goals exact Shows.nothing _
  case eventMsg =>
    rcases event with payload | ⟨message, phase, memoryCitation⟩ | text | text |
      ⟨event, callId, turnId, payload⟩ | payload | _ | hint | explanation | ⟨turnId, item⟩ |
      ⟨turnId, item⟩ | ⟨message, info⟩ | numTurns | ⟨turnId, completedAt, durationMs⟩ |
      ⟨turnId, startedAt⟩ | ⟨turnId, completedAt, durationMs⟩ | _
    · exact shows_handleUserMessage draws builder payload
    · rw [handleRecord, handleEvent, handleAgentMessage]
      split_ifs
      · exact Shows.nothing _
      · exact shows_pushOther draws builder.nextItemId.2 rfl
    · rw [handleRecord, handleEvent, handleAgentReasoning]
      split_ifs
      · exact Shows.nothing _
      · exact shows_handleReasoningText draws builder _
    · rw [handleRecord, handleEvent, handleAgentReasoningRawContent]
      split_ifs
      · exact Shows.nothing _
      · exact shows_handleReasoningText draws builder _
    · exact shows_handleTool env draws builder event callId turnId payload
    · exact shows_handleGuardianAssessment env draws builder payload
    · exact shows_pushOther draws builder.nextItemId.2 rfl
    · exact shows_pushOther draws builder.nextItemId.2 rfl
    · exact shows_pushOther draws builder.nextItemId.2 rfl
    · exact shows_handleTurnItem builder turnId item
    · exact shows_handleTurnItem builder turnId item
    · apply hsame
      rw [handleRecord, handleEvent, handleError]
      split_ifs
      · split
        next turn hcurrent =>
          exact userMessages_updateCurrentTurn builder hcurrent fun _ => rfl
        next => rfl
      · rfl
    · exact absurd hplain (by simp [RolloutItem.isPlain])
    · exact hsame _ (userMessages_updateTurnOrCurrent builder turnId false fun _ => rfl)
    · apply hsame
      rw [userMessages_eq, ← userMessages_finishCurrentTurn,
        userMessages_eq builder.finishCurrentTurn, currentItems_finishCurrentTurn]
      rfl
    · exact hsame _ (userMessages_updateTurnOrCurrent builder (some turnId) true fun _ => rfl)
    · exact Shows.nothing _
  all_goals exact Shows.nothing _

/-! ### Records between markers -/

/-- No item of the records takes the place of a user message. -/
def KeepsMessages : Builder Value → List (RolloutItem Value) → Prop
  | _, [] => True
  | builder, record :: records =>
    replacesUserMessage env builder record = false ∧
      KeepsMessages (builder.handleRolloutItem env draws record) records

/-- The messages that records bring. -/
def broughtMessages (records : List (RolloutItem Value)) : List (ShownMessage Value) :=
  (records.filterMap RolloutItem.userMessageEvent).map UserMessageEvent.shown

lemma broughtMessages_cons (record : RolloutItem Value) (records : List (RolloutItem Value)) :
    broughtMessages (record :: records) =
      (record.userMessageEvent.map UserMessageEvent.shown).toList ++ broughtMessages records := by
  cases hevent : record.userMessageEvent with
  | none => rw [broughtMessages, List.filterMap_cons_none hevent]; rfl
  | some payload => rw [broughtMessages, List.filterMap_cons_some hevent]; rfl

lemma shows_handleRolloutItem {record : RolloutItem Value} (hplain : record.isPlain = true) :
    Shows builder.userMessages (builder.handleRolloutItem env draws record).userMessages
      (record.userMessageEvent.map UserMessageEvent.shown).toList
      (replacesUserMessage env builder record) :=
  shows_handleRecord env draws
    { builder with
      currentRolloutIndex := builder.nextRolloutIndex
      nextRolloutIndex := builder.nextRolloutIndex + 1 } hplain

variable {records : List (RolloutItem Value)}

lemma userMessages_foldl (hplain : ∀ record ∈ records, record.isPlain = true)
    (hkeeps : KeepsMessages env draws builder records) :
    (records.foldl (handleRolloutItem env draws) builder).userMessages =
      builder.userMessages ++ broughtMessages records := by
  induction records generalizing builder with
  | nil => exact (List.append_nil _).symm
  | cons record records ih =>
    obtain ⟨hrecord, hrecords⟩ := hkeeps
    have hshows := shows_handleRolloutItem env draws builder (hplain record List.mem_cons_self)
    rw [hrecord] at hshows
    have hplain' : ∀ record ∈ records, record.isPlain = true :=
      fun item hitem => hplain item (List.mem_cons_of_mem _ hitem)
    rw [List.foldl_cons, ih _ hplain' hrecords, broughtMessages_cons, ← List.append_assoc]
    exact congrArg (· ++ broughtMessages records) hshows

/-- Every message that is replaced is missed in the end. -/
theorem length_userMessages_foldl (hplain : ∀ record ∈ records, record.isPlain = true) :
    (records.foldl (handleRolloutItem env draws) builder).userMessages.length ≤
        builder.userMessages.length + (broughtMessages records).length ∧
      ((records.foldl (handleRolloutItem env draws) builder).userMessages.length =
          builder.userMessages.length + (broughtMessages records).length →
        KeepsMessages env draws builder records) := by
  induction records generalizing builder with
  | nil => exact ⟨le_rfl, fun _ => trivial⟩
  | cons record records ih =>
    obtain ⟨hle, hkeeps⟩ := ih (builder.handleRolloutItem env draws record)
      fun item hitem => hplain item (List.mem_cons_of_mem _ hitem)
    have hshows := shows_handleRolloutItem env draws builder (hplain record List.mem_cons_self)
    rw [List.foldl_cons, broughtMessages_cons, List.length_append]
    cases hrecord : replacesUserMessage env builder record with
    | false =>
      rw [hrecord] at hshows
      have hlength := congrArg List.length hshows
      rw [List.length_append] at hlength
      exact ⟨by omega, fun heq => ⟨hrecord, hkeeps (by omega)⟩⟩
    | true =>
      rw [hrecord] at hshows
      obtain ⟨hlength, hadded⟩ : _ + 1 = _ ∧ _ := hshows
      rw [hadded, List.length_nil]
      exact ⟨by omega, fun heq => absurd heq (by omega)⟩

end records

end Builder

end Codex.ThreadHistory
