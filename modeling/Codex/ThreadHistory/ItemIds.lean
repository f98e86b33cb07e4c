import Codex.Lib.Labelled
import Codex.ThreadHistory.Replay

/-!
# Generated ids of items

The ids `item-N` are from a counter, which a rollback sets to the number of the remaining items plus
one. Items with ids of their own count as well, so that the counter may run ahead of the generated
ids, and it never falls behind them: a generated number is never larger than the place of its item.
-/

namespace Codex.ThreadHistory

open Codex.Lib Codex.Protocol

variable {Value : Type}

namespace Builder

variable (builder : Builder Value)

/-- The ids of all items, in order. -/
def itemIds : List Text :=
  (builder.allTurns.flatMap Turn.items).map ThreadItem.id

/-- The generated ids are numbered by the counter. -/
def Numbered : Prop :=
  Labelled (fun id n => id = itemId n) builder.itemIds builder.nextItemIndex

section numbered

variable {builder builder' : Builder Value} {turn : PendingTurn Value} {item : ThreadItem Value}
  {draws : Draws}

/-! ### What the handlers are made of -/

lemma Numbered.of_eq (h : Numbered builder) (hids : builder'.itemIds = builder.itemIds)
    (hnext : builder'.nextItemIndex = builder.nextItemIndex) : Numbered builder' := by
  rw [Numbered, hids, hnext]
  exact h

lemma itemIds_of_current (hcurrent : builder.currentTurn = some turn) :
    builder.itemIds = (builder.turns.flatMap Turn.items).map ThreadItem.id ++
      turn.items.map ThreadItem.id := by
  rw [itemIds, allTurns, hcurrent, List.flatMap_append, List.map_append]
  simp

lemma itemIds_of_none (hcurrent : builder.currentTurn = none) :
    builder.itemIds = (builder.turns.flatMap Turn.items).map ThreadItem.id := by
  rw [itemIds, allTurns, hcurrent]
  simp

lemma itemIds_setItems (builder : Builder Value) (turn : PendingTurn Value)
    (items : List (ThreadItem Value)) (item : ThreadItem Value) :
    ({ builder with currentTurn := some { turn with items := items } }.recordChangedItem
      turn.id item).itemIds =
        (builder.turns.flatMap Turn.items).map ThreadItem.id ++ items.map ThreadItem.id := by
  simp [itemIds, allTurns, recordChangedItem]

lemma itemIds_ensureTurn : (builder.ensureTurn draws).2.itemIds = builder.itemIds ∧
    (builder.ensureTurn draws).2.nextItemIndex = builder.nextItemIndex ∧
    (builder.ensureTurn draws).2.currentTurn = some (builder.ensureTurn draws).1 := by
  rw [ensureTurn]
  split
  next turn hcurrent => exact ⟨rfl, rfl, hcurrent⟩
  next hcurrent =>
    refine ⟨?_, rfl, rfl⟩
    rw [itemIds_of_none hcurrent, itemIds_of_current rfl]
    exact List.append_nil _

lemma itemIds_finishCurrentTurn : builder.finishCurrentTurn.itemIds = builder.itemIds ∧
    builder.finishCurrentTurn.nextItemIndex = builder.nextItemIndex ∧
    builder.finishCurrentTurn.currentTurn = none := by
  rw [finishCurrentTurn]
  split
  next hcurrent => exact ⟨rfl, rfl, hcurrent⟩
  next turn hcurrent =>
    split_ifs with hempty
    · refine ⟨?_, rfl, rfl⟩
      have hnil : turn.items = [] := by
        rw [Bool.and_eq_true, Bool.and_eq_true] at hempty
        exact List.isEmpty_iff.mp hempty.1.1
      rw [itemIds_of_current hcurrent, itemIds_of_none rfl, hnil]
      exact (List.append_nil _).symm
    · refine ⟨?_, rfl, rfl⟩
      rw [itemIds_of_current hcurrent, itemIds_of_none rfl]
      simp

lemma Numbered.finishCurrentTurn (h : Numbered builder) : Numbered builder.finishCurrentTurn := by
  obtain ⟨hids, hnext, -⟩ := @itemIds_finishCurrentTurn _ builder
  exact h.of_eq hids hnext

lemma itemIds_pushItemInCurrentTurn :
    (builder.pushItemInCurrentTurn draws item).itemIds = builder.itemIds ++ [item.id] ∧
      (builder.pushItemInCurrentTurn draws item).nextItemIndex = builder.nextItemIndex := by
  obtain ⟨hids, hnext, hcurrent⟩ := @itemIds_ensureTurn _ builder draws
  refine ⟨?_, hnext⟩
  have hpush := itemIds_setItems (builder.ensureTurn draws).2 (builder.ensureTurn draws).1
    ((builder.ensureTurn draws).1.items ++ [item]) item
  rw [← hids, itemIds_of_current hcurrent, List.append_assoc]
  rw [List.map_append, List.map_singleton] at hpush
  exact hpush

lemma Numbered.pushGenerated (h : Numbered builder) (hid : item.id = itemId builder.nextItemIndex) :
    Numbered (builder.nextItemId.2.pushItemInCurrentTurn draws item) := by
  obtain ⟨hids, hnext⟩ := @itemIds_pushItemInCurrentTurn _ builder.nextItemId.2 item draws
  rw [Numbered, hids, hnext]
  refine Labelled.push h ?_
  intro n hn
  exact itemId_injective (hn.symm.trans hid)

lemma Numbered.pushOwn (h : Numbered builder) (hid : ∀ n, item.id ≠ itemId n) :
    Numbered (builder.pushItemInCurrentTurn draws item) := by
  obtain ⟨hids, hnext⟩ := @itemIds_pushItemInCurrentTurn _ builder item draws
  rw [Numbered, hids, hnext]
  refine Labelled.insert ?_ hid
  rw [List.append_nil]
  exact h

/-- An upsert replaces an item with the id, or appends one. -/
theorem map_id_upsertTurnItem (items : List (ThreadItem Value)) (item : ThreadItem Value) :
    (upsertTurnItem items item).map ThreadItem.id = items.map ThreadItem.id ∨
      (upsertTurnItem items item).map ThreadItem.id = items.map ThreadItem.id ++ [item.id] := by
  by_cases hmem : item.id ∈ items.map ThreadItem.id
  · exact .inl (keys_upsert_of_mem hmem)
  · exact .inr (keys_upsert_of_notMem hmem)

lemma Numbered.upsertCurrent (h : Numbered builder) (hcurrent : builder.currentTurn = some turn)
    (hid : ∀ n, item.id ≠ itemId n) :
    Numbered ({ builder with
      currentTurn := some { turn with items := upsertTurnItem turn.items item }
      }.recordChangedItem turn.id item) := by
  have hset := itemIds_setItems builder turn (upsertTurnItem turn.items item) item
  have hids := itemIds_of_current hcurrent
  rcases map_id_upsertTurnItem turn.items item with hsame | hnew
  · refine h.of_eq ?_ rfl
    rw [hset, hids, hsame]
  · rw [Numbered, hset, hnew, ← List.append_assoc, ← hids]
    refine Labelled.insert ?_ hid
    rw [List.append_nil]
    exact h

lemma Numbered.upsertItemInCurrentTurn (h : Numbered builder) (hid : ∀ n, item.id ≠ itemId n) :
    Numbered (builder.upsertItemInCurrentTurn draws item) := by
  obtain ⟨hids, hnext, hcurrent⟩ := @itemIds_ensureTurn _ builder draws
  exact (h.of_eq hids hnext).upsertCurrent hcurrent hid

lemma itemIds_split {before after : List (Turn Value)} {found : Turn Value}
    (hturns : builder.turns = before ++ found :: after) :
    builder.itemIds = (before.flatMap Turn.items).map ThreadItem.id ++
      (found.items.map ThreadItem.id ++
        ((after ++ (builder.currentTurn.map (·.toTurn)).toList).flatMap Turn.items).map
          ThreadItem.id) := by
  rw [itemIds, allTurns, hturns]
  simp

variable (h : Numbered builder)
include h

lemma Numbered.upsertItemInTurnId (turnId : Text)
    (hid : ∀ n, item.id ≠ itemId n) : Numbered (builder.upsertItemInTurnId turnId item) := by
  rw [Builder.upsertItemInTurnId]
  split
  next turn hfilter => exact h.upsertCurrent (Option.filter_eq_some_iff.mp hfilter).1 hid
  next =>
    split
    next turn' turns' hupdate =>
      obtain ⟨before, found, after, hturns, rfl, rfl⟩ := Handling.exists_of_updateTurn hupdate
      have hbefore := itemIds_split hturns
      have hafter := @itemIds_split _ ({ builder with
        turns := before ++ { found with items := upsertTurnItem found.items item } :: after
        }.recordChangedItem found.id item) before after _ rfl
      rcases map_id_upsertTurnItem found.items item with hsame | hnew
      · refine h.of_eq ?_ rfl
        rw [hafter, hbefore, ← hsame]
        rfl
      · -- the new item comes between those of its turn and those of the next
        rw [Numbered, hafter]
        simp only [hnew]
        rw [Numbered, hbefore, ← List.append_assoc] at h
        rw [← List.append_assoc, ← List.append_assoc, List.append_assoc, List.singleton_append]
        exact Labelled.insert h hid
    next => exact h

variable {update : Turn Value → Turn Value}

lemma Numbered.updateCurrentTurn (hcurrent : builder.currentTurn = some turn)
    (hitems : ∀ turn, (update turn).items = turn.items) :
    Numbered (builder.updateCurrentTurn turn update) := by
  refine h.of_eq ?_ rfl
  rw [itemIds_of_current hcurrent, ← hitems]
  simp [itemIds, allTurns, Builder.updateCurrentTurn, recordChangedTurn]

/-! ### The handlers -/

lemma Numbered.updateTurnOrCurrent (turnId : Option Text) (closes : Bool)
    (hitems : ∀ turn, (update turn).items = turn.items) :
    Numbered (builder.updateTurnOrCurrent turnId closes update) := by
  rcases builder.updateTurnOrCurrent_cases turnId closes update with
    ⟨turn, hturn, heq⟩ | ⟨id, turn', turns', hupdate, heq⟩ | heq
  · have hupdated := h.updateCurrentTurn hturn hitems
    rw [heq]
    split_ifs
    · exact hupdated.finishCurrentTurn
    · exact hupdated
  · obtain ⟨before, found, after, hturns, rfl, rfl⟩ := Handling.exists_of_updateTurn hupdate
    rw [heq]
    refine h.of_eq ?_ rfl
    rw [itemIds_split hturns, ← hitems]
    simp [itemIds, allTurns, recordChangedTurn]
  · rw [heq]
    exact h

lemma Numbered.handleError (message : Text) (codexErrorInfo : Option (CodexErrorInfo Value)) :
    Numbered (builder.handleError message codexErrorInfo) := by
  rw [Builder.handleError]
  split_ifs
  · split
    next turn hcurrent => exact h.updateCurrentTurn hcurrent fun _ => rfl
    next => exact h
  · exact h

lemma Numbered.handleTurnStarted (turnId : Text) (startedAt : Option ℤ) :
    Numbered (builder.handleTurnStarted draws turnId startedAt) := by
  obtain ⟨hids, hnext, hcurrent⟩ := @itemIds_finishCurrentTurn _ builder
  refine h.of_eq ?_ hnext
  rw [← hids, itemIds_of_none hcurrent]
  simp [Builder.handleTurnStarted, itemIds, allTurns, recordChangedTurn, newTurn]

/-- **A rollback** keeps a prefix, and sets the counter after the number of its items. -/
theorem Numbered.handleThreadRollback (numTurns : ℕ) :
    Numbered (builder.handleThreadRollback numTurns) := by
  obtain ⟨hids, -, hcurrent⟩ := @itemIds_finishCurrentTurn _ builder
  have hfinished := h.finishCurrentTurn
  rw [Numbered, itemIds_of_none hcurrent] at hfinished
  set turns := builder.finishCurrentTurn.turns
  have hkept : (builder.handleThreadRollback numTurns).itemIds =
      ((turns.take (turns.length - numTurns)).flatMap Turn.items).map ThreadItem.id :=
    itemIds_of_none hcurrent
  have hcount : (builder.handleThreadRollback numTurns).nextItemIndex =
      (builder.handleThreadRollback numTurns).itemIds.length + 1 := by
    rw [hkept, List.length_map, List.length_flatMap]
    rfl
  rw [Numbered, hcount, hkept]
  refine Labelled.cut hfinished
    ⟨((turns.drop (turns.length - numTurns)).flatMap Turn.items).map ThreadItem.id, ?_⟩
  rw [← List.map_append, ← List.flatMap_append, List.take_append_drop]

lemma Numbered.upsertItemInTurnIdOrCurrent (turnId : Text) (hid : ∀ n, item.id ≠ itemId n) :
    Numbered (builder.upsertItemInTurnIdOrCurrent draws turnId item) := by
  rw [Builder.upsertItemInTurnIdOrCurrent]
  split_ifs
  · exact h.upsertItemInCurrentTurn hid
  · exact h.upsertItemInTurnId turnId hid

variable (env : HistoryEnv Value)

lemma Numbered.handleTool (event : ToolEvent)
    (callId turnId : Text) (payload : Value) (hid : ∀ n, callId ≠ itemId n) :
    Numbered (builder.handleTool env draws event callId turnId payload) := by
  rw [Builder.handleTool]
  rcases event.route with _ | _ | _
  · exact h.upsertItemInCurrentTurn hid
  · exact h.upsertItemInTurnId turnId hid
  · exact h.upsertItemInTurnIdOrCurrent turnId hid

lemma Numbered.handleGuardianAssessment (payload : GuardianAssessmentEvent Value)
    (hid : ∀ id, payload.targetItemId = some id → ∀ n, id ≠ itemId n) :
    Numbered (builder.handleGuardianAssessment env draws payload) := by
  rw [Builder.handleGuardianAssessment]
  split_ifs
  · exact h
  · split
    next => exact h
    next item hitem =>
      rw [buildItemFromGuardianEvent] at hitem
      split_ifs at hitem
      obtain ⟨id, htarget, rfl⟩ := Option.map_eq_some_iff.mp hitem
      exact h.upsertItemInTurnIdOrCurrent payload.turnId (hid id htarget)

lemma Numbered.handleTurnItem (turnId : Text) (item : TurnItem)
    (hid : ∀ id, item.id = some id → ∀ n, id ≠ itemId n) :
    Numbered (builder.handleTurnItem turnId item) := by
  rcases item with ⟨id, text⟩ | ⟨id, durationMs⟩ | _
  · rw [Builder.handleTurnItem]
    split_ifs
    · exact h
    · exact h.upsertItemInTurnId turnId (hid id rfl)
  · exact h.upsertItemInTurnId turnId (hid id rfl)
  · exact h

lemma Numbered.handleUserMessage (payload : UserMessageEvent Value) :
    Numbered (builder.handleUserMessage draws payload) := by
  rw [Builder.handleUserMessage]
  apply Numbered.pushGenerated ?_ rfl
  split
  next =>
    split_ifs
    · exact h.finishCurrentTurn
    · exact h
  next => exact h

lemma Numbered.handleAgentMessage (text : Text)
    (phase : Option MessagePhase) (memoryCitation : Option Value) :
    Numbered (builder.handleAgentMessage draws text phase memoryCitation) := by
  rw [Builder.handleAgentMessage]
  split_ifs
  · exact h
  · exact h.pushGenerated rfl

/-- A text that goes to the last item leaves its id as it is. -/
theorem Numbered.handleReasoningText (add : List Text × List Text → List Text × List Text) :
    Numbered (builder.handleReasoningText draws add) := by
  obtain ⟨hids, hnext, hcurrent⟩ := @itemIds_ensureTurn _ builder draws
  have hensured : Numbered (builder.ensureTurn draws).2 := h.of_eq hids hnext
  rw [Builder.handleReasoningText]
  simp only
  split
  next id summary content hlast =>
    refine hensured.of_eq ?_ rfl
    rw [itemIds_setItems, itemIds_of_current hcurrent]
    have hitems := List.dropLast_append_getLast? _ hlast
    conv_rhs => rw [← hitems]
    rw [List.map_append, List.map_append]
    rfl
  next => exact hensured.pushGenerated rfl

lemma Numbered.handleCompacted : Numbered (builder.handleCompacted draws) := by
  obtain ⟨hids, hnext, hcurrent⟩ := @itemIds_ensureTurn _ builder draws
  have hturns : (builder.handleCompacted draws).allTurns = (builder.ensureTurn draws).2.allTurns :=
    (Handling.allTurns_of_current hcurrent).symm
  refine (h.of_eq hids hnext).of_eq ?_ rfl
  rw [itemIds, itemIds, hturns]

lemma Numbered.handleResponseItem
    (hdraws : ∀ i n, draws.newV4 i ≠ itemId n) (item : ResponseItem Value)
    (hid : ∀ id, RolloutItem.itemId env (.responseItem item) = some id → ∀ n, id ≠ itemId n) :
    Numbered (builder.handleResponseItem env draws item) := by
  rcases item with _ | ⟨id, role, content, phase, metadata⟩ | _
  case message =>
    rw [Builder.handleResponseItem]
    split_ifs with hrole
    · split
      next => exact h
      next fragments hfragments =>
        refine h.pushOwn ?_
        intro n
        cases id with
        | none => exact hdraws builder.currentRolloutIndex n
        | some id =>
          refine hid id ?_ n
          change (RolloutItem.hookPromptId env _).join = some id
          rw [RolloutItem.hookPromptId, if_pos hrole, hfragments]
          rfl
    · exact h
  all_goals exact h

lemma numbered_handleEvent
    {event : EventMsg Value} (hid : ∀ id, event.itemId = some id → ∀ n, id ≠ itemId n) :
    Numbered (builder.handleEvent env draws event) := by
  rcases event with payload | ⟨message, phase, memoryCitation⟩ | text | text |
    ⟨event, callId, turnId, payload⟩ | payload | _ | hint | explanation | ⟨turnId, item⟩ |
    ⟨turnId, item⟩ | ⟨message, info⟩ | numTurns | ⟨turnId, completedAt, durationMs⟩ |
    ⟨turnId, startedAt⟩ | ⟨turnId, completedAt, durationMs⟩ | _
  · exact h.handleUserMessage payload
  · exact h.handleAgentMessage message phase memoryCitation
  · rw [handleEvent, handleAgentReasoning]
    split_ifs
    · exact h
    · exact h.handleReasoningText _
  · rw [handleEvent, handleAgentReasoningRawContent]
    split_ifs
    · exact h
    · exact h.handleReasoningText _
  · exact h.handleTool env event callId turnId payload (hid callId rfl)
  · exact h.handleGuardianAssessment env payload hid
  · exact h.pushGenerated rfl
  · exact h.pushGenerated rfl
  · exact h.pushGenerated rfl
  · exact h.handleTurnItem turnId item hid
  · exact h.handleTurnItem turnId item hid
  · exact h.handleError message info
  · exact h.handleThreadRollback numTurns
  · exact h.updateTurnOrCurrent turnId false fun _ => rfl
  · exact h.handleTurnStarted turnId startedAt
  · exact h.updateTurnOrCurrent (some turnId) true fun _ => rfl
  · exact h

lemma numbered_handleRecord (hdraws : ∀ i n, draws.newV4 i ≠ itemId n) {item : RolloutItem Value}
    (hid : ∀ id, item.itemId env = some id → ∀ n, id ≠ itemId n) :
    Numbered (builder.handleRecord env draws item) := by
  rcases item with _ | item | _ | _ | compacted | _ | _ | event
  case eventMsg => exact numbered_handleEvent h env hid
  case compacted => exact h.handleCompacted
  case responseItem => exact h.handleResponseItem env hdraws item hid
  all_goals exact h

omit h

lemma Numbered.new : Numbered (.new : Builder Value) := Labelled.nil _

end numbered

end Builder

/-! ### A rollout -/

section rollout

variable {env : HistoryEnv Value} {draws : Draws}

lemma numbered_foldl {items : List (RolloutItem Value)} {builder : Builder Value}
    (h : builder.Numbered) (hdraws : ∀ i n, draws.newV4 i ≠ Builder.itemId n)
    (hid : ∀ item ∈ items, ∀ id, item.itemId env = some id → ∀ n, id ≠ Builder.itemId n) :
    (items.foldl (Builder.handleRolloutItem env draws) builder).Numbered := by
  induction items generalizing builder with
  | nil => exact h
  | cons item items ih =>
    refine ih ?_ fun other hother => hid other (List.mem_cons_of_mem _ hother)
    have hopened : Builder.Numbered { builder with
        currentRolloutIndex := builder.nextRolloutIndex
        nextRolloutIndex := builder.nextRolloutIndex + 1 } := h
    exact Builder.numbered_handleRecord hopened env hdraws (hid item List.mem_cons_self)

/-- **No two items have the same generated id**: in the turns that any prefix of a rollout builds,
whose own item ids and drawn ids are not of the form `item-N`. -/
theorem generated_ids_unique {items before : List (RolloutItem Value)}
    (hid : ∀ item ∈ items, ∀ id, item.itemId env = some id → ∀ n, id ≠ Builder.itemId n)
    (hdraws : ∀ i n, draws.newV4 i ≠ Builder.itemId n) (hbefore : before <+: items) (n : ℕ) :
    ((buildTurnsFromRolloutItems env draws before).flatMap Turn.items).countP
      (fun item => item.id = Builder.itemId n) ≤ 1 := by
  have hnumbered := numbered_foldl Builder.Numbered.new hdraws fun item hitem =>
    hid item (hbefore.subset hitem)
  have hfinished := hnumbered.finishCurrentTurn
  obtain ⟨-, -, hcurrent⟩ := @Builder.itemIds_finishCurrentTurn _
    (before.foldl (Builder.handleRolloutItem env draws) .new)
  rw [Builder.Numbered, Builder.itemIds_of_none hcurrent] at hfinished
  have hcount : List.countP (fun id => decide (id = Builder.itemId n)) _ ≤ 1 :=
    hfinished.countP_le_one fun id heq => of_decide_eq_true heq
  rw [List.countP_map] at hcount
  exact hcount

/-- A prefix with a rollback and an item after it. -/
theorem generated_ids_unique_sampleItems :
    ((buildTurnsFromRolloutItems sampleEnv (sampleDraws "draw-1") sampleItems).flatMap
      Turn.items).countP (fun item => item.id = Builder.itemId 3) ≤ 1 := by
  have hdraw : "draw-1".toList.take 5 ≠ "item-".toList := by decide +kernel
  exact generated_ids_unique (sampleItems_properIds (sampleDraws "draw-1")).itemIds
    (fun _ n => ne_itemId hdraw n) (List.prefix_refl _) 3

end rollout

end Codex.ThreadHistory
