import Codex.Session.RollbackLaw
import Codex.ThreadHistory.Replay
import Codex.ThreadHistory.UserMessages

/-!
# The client's turns and the model's history after rollbacks

One rollout is read twice: the client builds turns from it, the session reconstructs the history of
the model. A rollback counts turns of any kind in the one and instruction turns in the other, so the
two keep the same user messages only where the last turns of the one hold as many of them as the
last instruction turns of the other.

The rollout is cut at its markers. The records between two markers bring the same user messages as
events and as response items (`Stretch`); a well-delimited turn is such records.

* `agree_iff_inStep`: **the two views agree all along a rollout iff each of its parts is in step**;
* `agree_fails`: a turn without user message is rolled back.
-/

namespace Codex.ThreadHistory

open Codex.Lib Codex.Protocol Codex.Context Codex.ContextManager Codex.Session

variable {Value Snapshot : Type}

/-! ### The session's reading of a record -/

/-- The event as the session reads it; `payload` is what it does not look into. -/
def EventMsg.toSession (payload : EventMsg Value → Value) :
    EventMsg Value → Session.EventMsg Value
  | .turnStarted turnId _ => .turnStarted turnId
  | .turnComplete turnId _ _ => .turnComplete turnId
  | .turnAborted turnId _ _ => .turnAborted turnId
  | .threadRolledBack numTurns => .threadRolledBack numTurns
  | .userMessage event => .userMessage (payload (.userMessage event))
  | event => .other (payload event)

/-- The record as the session reads it. -/
def RolloutItem.toSession (payload : EventMsg Value → Value) :
    RolloutItem Value → Session.RolloutItem Value
  | .sessionMeta contextWindowId => .sessionMeta contextWindowId
  | .responseItem item => .responseItem item
  | .interAgentCommunication communication => .interAgentCommunication communication
  | .interAgentCommunicationMetadata triggerTurn => .interAgentCommunicationMetadata triggerTurn
  | .compacted item => .compacted item
  | .turnContext ctx => .turnContext ctx
  | .worldState item => .worldState item
  | .eventMsg event => .eventMsg (event.toSession payload)

variable (env : ContextEnv)

/-- An item of the history that is a user's message, not a context update in that role. -/
def isUserMessage : ResponseItem Value → Bool
  | .message _ role content _ _ =>
    role == "user".toList && !isContextualUserMessageContent env content
  | _ => false

lemma isUserTurnBoundary_of_isUserMessage (item : ResponseItem Value)
    (h : isUserMessage env item = true) : isUserTurnBoundary env item = true := by
  cases item with
  | message id role content phase metadata =>
    rw [isUserMessage] at h
    rw [isUserTurnBoundary, h, Bool.true_or]
  | _ => exact absurd h (by simp [isUserMessage])

/-- The user message that a record brings to the history. -/
def RolloutItem.userMessageItem :
    RolloutItem Value → Option (ResponseItem Value)
  | .responseItem item => if isUserMessage env item then some item else none
  | _ => none

/-! ### Rollouts -/

/-- A user message recorded as event and as response item. -/
structure RecordedMessage (env : ContextEnv) (Value : Type) where
  payload : UserMessageEvent Value
  item : ResponseItem Value
  isUser : isUserMessage env item = true

/-- Records without a marker or a compaction, and the user messages that they record both ways. -/
structure Stretch (env : ContextEnv) (Value : Type) where
  records : List (RolloutItem Value)
  messages : List (RecordedMessage env Value)
  plain : ∀ record ∈ records, record.isPlain = true
  events : records.filterMap RolloutItem.userMessageEvent = messages.map (·.payload)
  items : records.filterMap (RolloutItem.userMessageItem env) = messages.map (·.item)

/-- The events that end a turn. -/
def EventMsg.endsTurn (turnId : Text) : EventMsg Value → Bool
  | .turnComplete endedTurnId _ _ => endedTurnId == turnId
  | .turnAborted endedTurnId _ _ => turnIdsAreCompatible (some turnId) endedTurnId
  | _ => false

/-- A well-delimited turn: `TurnStarted`, at most one user message, other items, and its end. -/
structure RecordedTurn (env : ContextEnv) (Value : Type) where
  turnId : Text
  startedAt : Option ℤ
  body : List (RolloutItem Value)
  ending : EventMsg Value
  message : Option (RecordedMessage env Value)
  ends : ending.endsTurn turnId = true
  plain : ∀ record ∈ body, record.isPlain = true
  events : body.filterMap RolloutItem.userMessageEvent = message.toList.map (·.payload)
  items : body.filterMap (RolloutItem.userMessageItem env) = message.toList.map (·.item)

/-- The records of the turn. -/
def RecordedTurn.records {env : ContextEnv} (turn : RecordedTurn env Value) :
    List (RolloutItem Value) :=
  .eventMsg (.turnStarted turn.turnId turn.startedAt) :: turn.body ++ [.eventMsg turn.ending]

/-- A part of a rollout. -/
inductive RolloutPart (env : ContextEnv) (Value : Type) where
  | stretch (between : Stretch env Value)
  | rolledBack (numTurns : ℕ)

section rollout

variable {env : ContextEnv}

lemma EventMsg.eq_of_endsTurn {turnId : Text} {event : EventMsg Value}
    (h : event.endsTurn turnId = true) :
    RolloutItem.isPlain (.eventMsg event) = true ∧
      RolloutItem.userMessageEvent (.eventMsg event) = none := by
  cases event with
  | turnComplete _ _ _ => exact ⟨rfl, rfl⟩
  | turnAborted _ _ _ => exact ⟨rfl, rfl⟩
  | _ => exact absurd h (by simp [EventMsg.endsTurn])

/-- A turn as records between markers. -/
def RecordedTurn.toStretch (turn : RecordedTurn env Value) : Stretch env Value where
  records := turn.records
  messages := turn.message.toList
  plain record hrecord := by
    rw [RecordedTurn.records, List.cons_append, List.mem_cons, List.mem_append,
      List.mem_singleton] at hrecord
    rcases hrecord with rfl | hbody | rfl
    · rfl
    · exact turn.plain record hbody
    · exact (EventMsg.eq_of_endsTurn turn.ends).1
  events := by
    rw [RecordedTurn.records, List.cons_append, List.filterMap_cons_none rfl,
      List.filterMap_append, turn.events,
      List.filterMap_cons_none (EventMsg.eq_of_endsTurn turn.ends).2]
    exact List.append_nil _
  items := by
    rw [RecordedTurn.records, List.cons_append, List.filterMap_cons_none rfl,
      List.filterMap_append, turn.items]
    exact List.append_nil _

/-- A well-delimited turn of a rollout. -/
def RolloutPart.turn (turn : RecordedTurn env Value) : RolloutPart env Value :=
  .stretch turn.toStretch

def RolloutPart.records : RolloutPart env Value → List (RolloutItem Value)
  | .stretch between => between.records
  | .rolledBack numTurns => [.eventMsg (.threadRolledBack numTurns)]

def RolloutPart.messages : RolloutPart env Value → List (RecordedMessage env Value)
  | .stretch between => between.messages
  | .rolledBack _ => []

variable (rollout : List (RolloutPart env Value))

/-- The records of a rollout, oldest first. -/
def rolloutRecords : List (RolloutItem Value) :=
  rollout.flatMap RolloutPart.records

/-- The user messages of a rollout, oldest first. -/
def rolloutMessages : List (RecordedMessage env Value) :=
  rollout.flatMap RolloutPart.messages

variable (part : RolloutPart env Value)

lemma rolloutRecords_concat
    :
    rolloutRecords (rollout ++ [part]) = rolloutRecords rollout ++ part.records := by
  rw [rolloutRecords, List.flatMap_append]
  exact congrArg (rolloutRecords rollout ++ ·) (List.append_nil _)

lemma rolloutMessages_concat
    :
    rolloutMessages (rollout ++ [part]) = rolloutMessages rollout ++ part.messages := by
  rw [rolloutMessages, List.flatMap_append]
  exact congrArg (rolloutMessages rollout ++ ·) (List.append_nil _)

end rollout

/-! ### The two views -/

section views

variable (henv : HistoryEnv Value) (draws : Draws) (env : ReplayEnv Value Snapshot)
  (payload : EventMsg Value → Value) (rollout : List (RolloutPart env.toContextEnv Value))

/-- The user messages in the turns that the client builds. -/
def clientMessages : List (ShownMessage Value) :=
  shownMessages (buildTurnsFromRolloutItems henv draws (rolloutRecords rollout))

/-- The history that the session reconstructs. -/
def modelHistory : List (ResponseItem Value) :=
  (reconstructHistoryFromRollout env
    ((rolloutRecords rollout).map (RolloutItem.toSession payload))).history

/-- The user messages in the history of the model. -/
def modelMessages : List (ResponseItem Value) :=
  (modelHistory env payload rollout).filter (isUserMessage env.toContextEnv)

/-- The client and the model have the same of the recorded user messages, in order. -/
def Agree : Prop :=
  ∃ messages : List (RecordedMessage env.toContextEnv Value),
    messages.Sublist (rolloutMessages rollout) ∧
    clientMessages henv draws env rollout = messages.map (·.payload.shown) ∧
    modelMessages env payload rollout = messages.map (·.item)

/-- What the part does to the state before it keeps the views in step: no item takes the place of a
user message, and a marker finds as many user messages in the last turns of the client as in the
last instruction turns of the model. -/
def RolloutPart.InStep (before : List (RolloutPart env.toContextEnv Value)) :
    RolloutPart env.toContextEnv Value → Prop
  | .stretch between =>
    Builder.KeepsMessages henv draws (replay henv draws (rolloutRecords before)) between.records
  | .rolledBack numTurns =>
    (shownMessages ((buildTurnsFromRolloutItems henv draws
        (rolloutRecords before)).rtake numTurns)).length =
      (((modelHistory env payload before).filter
        (isUserTurnBoundary env.toContextEnv)).rtake numTurns).countP
          (isUserMessage env.toContextEnv)

/-- Every part of the rollout is in step. -/
def InStep (rollout : List (RolloutPart env.toContextEnv Value)) : Prop :=
  ∀ before part after, rollout = before ++ part :: after → part.InStep henv draws env payload before

/-! ### What one part does -/

lemma clientMessages_eq :
    clientMessages henv draws env rollout =
      (replay henv draws (rolloutRecords rollout)).userMessages :=
  Builder.shownMessages_finishCurrentTurn _

variable (part : RolloutPart env.toContextEnv Value)

lemma replay_concat
    :
    replay henv draws (rolloutRecords (rollout ++ [part])) =
      part.records.foldl (Builder.handleRolloutItem henv draws)
        (replay henv draws (rolloutRecords rollout)) := by
  rw [rolloutRecords_concat, replay, List.foldl_append]
  rfl

lemma isCompaction_toSession {record : RolloutItem Value} (h : record.isPlain = true) :
    isCompaction (record.toSession payload) = false := by
  cases record with
  | compacted item => exact absurd h (by simp [RolloutItem.isPlain])
  | _ => rfl

lemma any_isCompaction_records :
    ((rolloutRecords rollout).map (RolloutItem.toSession payload)).any isCompaction = false := by
  rw [List.any_eq_false]
  intro item hitem
  obtain ⟨record, hrecord, rfl⟩ := List.mem_map.mp hitem
  obtain ⟨part, -, hpart⟩ := List.mem_flatMap.mp hrecord
  rw [Bool.not_eq_true]
  cases part with
  | stretch between => exact isCompaction_toSession payload (between.plain record hpart)
  | rolledBack numTurns =>
    obtain rfl := List.mem_singleton.mp hpart
    rfl

lemma modelHistory_concat
    :
    modelHistory env payload (rollout ++ [part]) =
      (part.records.map (RolloutItem.toSession payload)).foldl (replayHistory env)
        (modelHistory env payload rollout) := by
  rw [modelHistory, history_noCompaction env (any_isCompaction_records env payload _),
    rolloutRecords_concat, List.map_append, List.foldl_append, modelHistory,
    history_noCompaction env (any_isCompaction_records env payload rollout)]

variable (item : ResponseItem Value)

lemma isUserMessage_processItem :
    isUserMessage env.toContextEnv (processItem env.toContextEnv item) =
      isUserMessage env.toContextEnv item := by
  cases item <;> rfl

lemma filter_recordedItem :
    (recordedItem env.toContextEnv item).filter (isUserMessage env.toContextEnv) =
      (if isUserMessage env.toContextEnv item then some item else none).toList := by
  by_cases huser : isUserMessage env.toContextEnv item = true
  · cases item with
    | message id role content phase metadata =>
      have hrole := huser
      rw [isUserMessage, Bool.and_eq_true, beq_iff_eq] at hrole
      have hapi : isApiMessage (.message id role content phase metadata : ResponseItem Value) =
          true := by
        rw [hrole.1]
        rfl
      rw [recordedItem, if_pos hapi, if_pos huser]
      exact List.filter_cons_of_pos huser
    | _ => exact absurd huser (by simp [isUserMessage])
  · rw [if_neg huser, recordedItem]
    split_ifs
    · rw [← isUserMessage_processItem] at huser
      exact List.filter_cons_of_neg huser
    · rfl

variable (items : List (ResponseItem Value))

lemma filter_replayHistory {record : RolloutItem Value} (hplain : record.isPlain = true) :
    (replayHistory env items (record.toSession payload)).filter (isUserMessage env.toContextEnv) =
      items.filter (isUserMessage env.toContextEnv) ++
        (record.userMessageItem env.toContextEnv).toList := by
  have hnothing : items.filter (isUserMessage env.toContextEnv) =
      items.filter (isUserMessage env.toContextEnv) ++ [] := (List.append_nil _).symm
  cases record with
  | compacted item => exact absurd hplain (by simp [RolloutItem.isPlain])
  | responseItem item =>
    refine (List.filter_append ..).trans ?_
    exact congrArg _ (filter_recordedItem env item)
  | interAgentCommunication communication => exact List.filter_append ..
  | eventMsg event =>
    cases event with
    | threadRolledBack numTurns => exact absurd hplain (by simp [RolloutItem.isPlain])
    | _ => exact List.filter_append ..
  | _ => exact List.filter_append ..

lemma filter_foldl_replayHistory
    {records : List (RolloutItem Value)} (hplain : ∀ record ∈ records, record.isPlain = true) :
    ((records.map (RolloutItem.toSession payload)).foldl (replayHistory env) items).filter
        (isUserMessage env.toContextEnv) =
      items.filter (isUserMessage env.toContextEnv) ++
        records.filterMap (RolloutItem.userMessageItem env.toContextEnv) := by
  induction records generalizing items with
  | nil => exact (List.append_nil _).symm
  | cons record records ih =>
    have hrecord := filter_replayHistory env payload items (hplain record List.mem_cons_self)
    rw [List.map_cons, List.foldl_cons,
      ih _ fun item hitem => hplain item (List.mem_cons_of_mem _ hitem), hrecord,
      List.append_assoc]
    congr 1
    cases hitem : record.userMessageItem env.toContextEnv with
    | none => rw [List.filterMap_cons_none hitem]; rfl
    | some item => rw [List.filterMap_cons_some hitem]; rfl

/-! ### Keeping in step -/

section step

variable {rollout : List (RolloutPart env.toContextEnv Value)}

/-- Records between markers keep the agreement iff their items replace no message. -/
theorem agree_stretch_iff (h : Agree henv draws env payload rollout)
    (between : Stretch env.toContextEnv Value) :
    Agree henv draws env payload (rollout ++ [.stretch between]) ↔
      (RolloutPart.stretch between).InStep henv draws env payload rollout := by
  obtain ⟨messages, hsublist, hclient, hmodel⟩ := h
  rw [clientMessages_eq] at hclient
  have hbrought : Builder.broughtMessages between.records =
      between.messages.map (·.payload.shown) := by
    rw [Builder.broughtMessages, between.events, List.map_map]
    rfl
  have hmodel' : modelMessages env payload (rollout ++ [.stretch between]) =
      (messages ++ between.messages).map (·.item) := by
    rw [modelMessages, modelHistory_concat, List.map_append, ← hmodel, ← between.items]
    exact filter_foldl_replayHistory env payload _ between.plain
  constructor
  · rintro ⟨messages', -, hclient', hagree⟩
    have hlength := congrArg List.length (hmodel'.symm.trans hagree)
    rw [clientMessages_eq, replay_concat] at hclient'
    have hclientLength := congrArg List.length hclient'
    apply (Builder.length_userMessages_foldl henv draws _ between.plain).2
    rw [hbrought, hclient, ← List.length_append, ← List.map_append, List.length_map]
    rw [List.length_map, List.length_map] at hlength
    rw [List.length_map] at hclientLength
    exact hclientLength.trans hlength.symm
  · intro hkeeps
    refine ⟨messages ++ between.messages, ?_, ?_, hmodel'⟩
    · rw [rolloutMessages_concat]
      exact hsublist.append (List.Sublist.refl _)
    · rw [clientMessages_eq, replay_concat, List.map_append, ← hclient, ← hbrought]
      exact Builder.userMessages_foldl henv draws _ between.plain hkeeps

/-- Two prefixes of one list are one where they are of one length. -/
theorem take_eq_take_of_maps {α β γ : Type} {f : α → β} {g : α → γ} {l m : List α}
    {a b : ℕ} (ha : a ≤ l.length) (hb : b ≤ l.length) (hf : (l.map f).take (l.length - a) = m.map f)
    (hg : (l.map g).take (l.length - b) = m.map g) : a = b := by
  have hflength := congrArg List.length hf
  have hglength := congrArg List.length hg
  rw [List.length_take, List.length_map, List.length_map] at hflength hglength
  omega

variable (h : Agree henv draws env payload rollout)
include h

/-- A marker keeps the agreement iff it takes as many user messages from the one as from the
other. -/
theorem agree_rolledBack_iff (numTurns : ℕ) :
    Agree henv draws env payload (rollout ++ [.rolledBack numTurns]) ↔
      (RolloutPart.rolledBack numTurns).InStep henv draws env payload rollout := by
  obtain ⟨messages, hsublist, hclient, hmodel⟩ := h
  rw [clientMessages_eq] at hclient
  rw [RolloutPart.InStep]
  set builder := replay henv draws (rolloutRecords rollout) with hbuilder
  set taken := (shownMessages ((buildTurnsFromRolloutItems henv draws
    (rolloutRecords rollout)).rtake numTurns)).length with htaken
  set dropped := (((modelHistory env payload rollout).filter
    (isUserTurnBoundary env.toContextEnv)).rtake numTurns).countP
      (isUserMessage env.toContextEnv) with hdropped
  have hclient' : clientMessages henv draws env (rollout ++ [.rolledBack numTurns]) =
      (messages.map (·.payload.shown)).take (messages.length - taken) := by
    have hrolled := Builder.userMessages_handleThreadRollback
      { builder with
        currentRolloutIndex := builder.nextRolloutIndex
        nextRolloutIndex := builder.nextRolloutIndex + 1 } numTurns
    rw [Builder.turns_finishCurrentTurn_setIndex] at hrolled
    rw [clientMessages_eq, replay_concat]
    refine hrolled.trans ?_
    change builder.userMessages.take (builder.userMessages.length - taken) = _
    rw [hclient, List.length_map]
  have hmodel' : modelMessages env payload (rollout ++ [.rolledBack numTurns]) =
      (messages.map (·.item)).take (messages.length - dropped) := by
    have hcut := filter_dropLastMarked
      (isPreTurnContextUpdate_not_boundary env.toContextEnv)
      (isUserTurnBoundary_of_isUserMessage env.toContextEnv) numTurns
      (modelHistory env payload rollout)
    rw [modelMessages, modelHistory_concat]
    change (dropLastMarked _ _ numTurns (modelHistory env payload rollout)).filter _ = _
    rw [hcut, ← modelMessages, hmodel, List.length_map]
  have htakenLe : taken ≤ messages.length := by
    have hshown : shownMessages builder.finishCurrentTurn.turns = messages.map (·.payload.shown) :=
      (Builder.shownMessages_finishCurrentTurn builder).trans hclient
    have hlength := congrArg List.length hshown
    rw [← List.take_append_drop (builder.finishCurrentTurn.turns.length - numTurns)
      builder.finishCurrentTurn.turns, Builder.shownMessages_append, List.length_append,
      List.length_map] at hlength
    change (shownMessages (builder.finishCurrentTurn.turns.rtake numTurns)).length ≤ _
    rw [List.rtake]
    omega
  have hdroppedLe : dropped ≤ messages.length := by
    have hlength := congrArg List.length hmodel
    rw [modelMessages, ← List.countP_eq_length_filter, List.length_map] at hlength
    rw [← hlength]
    have hsublist' := ((List.drop_suffix _ _).sublist.trans List.filter_sublist :
      (((modelHistory env payload rollout).filter
        (isUserTurnBoundary env.toContextEnv)).rtake numTurns).Sublist _)
    exact hsublist'.countP_le
  constructor
  · rintro ⟨messages', -, hagree, hagree'⟩
    exact take_eq_take_of_maps htakenLe hdroppedLe (hclient'.symm.trans hagree)
      (hmodel'.symm.trans hagree')
  · intro heq
    refine ⟨messages.take (messages.length - taken), ?_, ?_, ?_⟩
    · rw [rolloutMessages_concat]
      exact ((List.take_sublist _ _).trans hsublist).trans (List.sublist_append_left _ _)
    · rw [hclient', List.map_take]
    · rw [hmodel', List.map_take, heq]

/-- **One more part** keeps the agreement iff it is in step. -/
theorem step_agree_iff (part : RolloutPart env.toContextEnv Value) :
    Agree henv draws env payload (rollout ++ [part]) ↔
      part.InStep henv draws env payload rollout := by
  cases part with
  | stretch between => exact agree_stretch_iff henv draws env payload h between
  | rolledBack numTurns => exact agree_rolledBack_iff henv draws env payload h numTurns

end step

/-! ### A whole rollout -/

lemma agree_nil : Agree henv draws env payload [] := ⟨[], List.Sublist.refl _, rfl, rfl⟩

lemma inStep_concat_iff (rollout : List (RolloutPart env.toContextEnv Value))
    (part : RolloutPart env.toContextEnv Value) :
    InStep henv draws env payload (rollout ++ [part]) ↔
      InStep henv draws env payload rollout ∧ part.InStep henv draws env payload rollout := by
  constructor
  · intro h
    refine ⟨fun before part' after hsplit => ?_, h rollout part [] rfl⟩
    apply h before part' (after ++ [part])
    rw [hsplit, List.append_assoc, List.cons_append]
  · rintro ⟨hrollout, hpart⟩ before part' after hsplit
    rcases List.eq_nil_or_concat after with rfl | ⟨after, last, rfl⟩
    · obtain ⟨rfl, hlast⟩ := List.append_inj' hsplit rfl
      obtain rfl := List.singleton_inj.mp hlast
      exact hpart
    · rw [List.concat_eq_append, ← List.cons_append, ← List.append_assoc] at hsplit
      obtain ⟨hsplit, -⟩ := List.append_inj' hsplit rfl
      exact hrollout before part' after hsplit

/-- **The client's turns and the model's history** agree all along a rollout iff each of its parts
is in step. -/
theorem agree_iff_inStep (rollout : List (RolloutPart env.toContextEnv Value)) :
    (∀ earlier, earlier <+: rollout → Agree henv draws env payload earlier) ↔
      InStep henv draws env payload rollout := by
  induction rollout using List.reverseRecOn with
  | nil =>
    refine iff_of_true (fun earlier hearlier => ?_) fun before part after hsplit => ?_
    · obtain rfl := List.prefix_nil.mp hearlier
      exact agree_nil henv draws env payload
    · exact absurd hsplit (by simp)
  | append_singleton rollout part ih =>
    rw [inStep_concat_iff, ← ih]
    constructor
    · intro h
      have hrollout := h rollout (List.prefix_append _ _)
      refine ⟨fun earlier hearlier => h earlier (hearlier.trans (List.prefix_append _ _)), ?_⟩
      exact (step_agree_iff henv draws env payload hrollout part).mp (h _ (List.prefix_refl _))
    · rintro ⟨h, hpart⟩ earlier hearlier
      rcases List.prefix_concat_iff.mp hearlier with rfl | hearlier
      · exact (step_agree_iff henv draws env payload (h _ (List.prefix_refl _)) part).mpr hpart
      · exact h earlier hearlier

end views

/-! ### A turn without user message -/

/-- An environment for payloads that nothing looks into. -/
def plainHistoryEnv : HistoryEnv Unit where
  hookPromptXml _ := none
  toolFields _ _ := ()
  guardianFields _ _ := ()

/-- A message recorded both ways. -/
def recordedHello : RecordedMessage plainEnv.toContextEnv Unit where
  payload := ⟨none, "hello".toList, none, [], [], [], []⟩
  item := .message none "user".toList [.inputText "hello".toList] none none
  isUser := by decide +kernel

/-- A turn that the message opens. -/
def helloTurn : RecordedTurn plainEnv.toContextEnv Unit where
  turnId := "turn-a".toList
  startedAt := none
  body := [.responseItem recordedHello.item, .eventMsg (.userMessage recordedHello.payload)]
  ending := .turnComplete "turn-a".toList none none
  message := some recordedHello
  ends := by decide
  plain := by decide
  events := by decide +kernel
  items := by decide +kernel

/-- A turn of another kind, such as that of a shell command of the user. -/
def quietTurn : RecordedTurn plainEnv.toContextEnv Unit where
  turnId := "turn-b".toList
  startedAt := none
  body := []
  ending := .turnComplete "turn-b".toList none none
  message := none
  ends := by decide
  plain := by decide
  events := rfl
  items := rfl

/-- **A turn without user message is rolled back**: the client drops that turn and keeps the message
before it, the model drops the message. -/
theorem agree_fails :
    clientMessages plainHistoryEnv (sampleDraws "draw") plainEnv
        [.turn helloTurn, .turn quietTurn, .rolledBack 1] =
      [⟨none, [.text "hello".toList []]⟩] ∧
    modelMessages plainEnv (fun _ => ()) [.turn helloTurn, .turn quietTurn, .rolledBack 1] = [] ∧
    ¬ Agree plainHistoryEnv (sampleDraws "draw") plainEnv (fun _ => ())
      [.turn helloTurn, .turn quietTurn, .rolledBack 1] := by
  have hclient : clientMessages plainHistoryEnv (sampleDraws "draw") plainEnv
      [.turn helloTurn, .turn quietTurn, .rolledBack 1] =
        [⟨none, [.text "hello".toList []]⟩] := by decide +kernel
  have hmodel : modelMessages plainEnv (fun _ => ())
      [.turn helloTurn, .turn quietTurn, .rolledBack 1] = [] := by decide +kernel
  refine ⟨hclient, hmodel, ?_⟩
  rintro ⟨messages, -, hshown, hitems⟩
  rw [hmodel] at hitems
  obtain rfl := List.map_eq_nil_iff.mp hitems.symm
  rw [hclient] at hshown
  exact absurd hshown (List.cons_ne_nil _ _)

end Codex.ThreadHistory
