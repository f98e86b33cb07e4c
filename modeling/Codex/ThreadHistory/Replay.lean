import Codex.ThreadHistory.Handling

/-!
# Incremental history and full replay

A mirror that gets the change sets of a builder, in whatever batches, has the turns that a full
replay builds. The ids must not get mixed up (`ProperIds`): the id that opens a turn is new and not
of the form of the generated ones, an item's id is not of that form either and is not pushed into a
turn that has it, and a hook prompt has an id.

* `mirror_eq_replay`: a rollout;
* `mirror_eq_replay_fails`: a turn that is opened under a generated id, and a hook prompt without an
  id.
-/

namespace Codex.ThreadHistory

open Codex.Lib Codex.Protocol

variable {Value : Type}

/-- The ids of a record are not mixed up with those that the builder has. -/
structure RolloutItem.Proper (env : HistoryEnv Value) (started : List Text)
    (builder : Builder Value) (item : RolloutItem Value) : Prop where
  started : ∀ id, item.startedTurnId = some id → id ∉ started ∧ ∀ n, id ≠ Builder.rolloutTurnId n
  itemId : ∀ id, item.itemId env = some id → ∀ n, id ≠ Builder.itemId n
  hook : item.hookPromptId env ≠ some none
  pushedOnce : ∀ id, item.hookPromptId env = some (some id) →
    ∀ turn, builder.currentTurn = some turn → id ∉ turn.items.map ThreadItem.id

/-! ### One record -/

namespace Builder

variable {env : HistoryEnv Value} {draws : Draws} {mirror : Mirror Value} {started : List Text}
  {index : ℕ} {builder : Builder Value} (h : Handling mirror started index index builder)
include h

lemma handled_handleEvent
    (hkept : Kept builder) (hstarted : ∀ id ∈ started, ∀ n, id ≠ rolloutTurnId n)
    (hchanges : builder.activeChangeSet = some .empty) {event : EventMsg Value}
    (hproper : RolloutItem.Proper env started builder (.eventMsg event)) :
    Handled mirror (started ++ (RolloutItem.startedTurnId (.eventMsg event)).toList) index
      (builder.handleEvent env draws event) := by
  have hnext : ∀ {builder' : Builder Value}, Handled mirror started index builder' →
      Handled mirror (started ++ []) index builder' := by
    rw [List.append_nil]
    exact id
  have hid : ∀ id, event.itemId = some id → ∀ n, id ≠ itemId n := hproper.itemId
  rcases event with payload | ⟨message, phase, memoryCitation⟩ | text | text |
    ⟨event, callId, turnId, payload⟩ | payload | _ | hint | explanation | ⟨turnId, item⟩ |
    ⟨turnId, item⟩ | ⟨message, info⟩ | numTurns | ⟨turnId, completedAt, durationMs⟩ |
    ⟨turnId, startedAt⟩ | ⟨turnId, completedAt, durationMs⟩ | _
  · exact hnext (handled_handleUserMessage h hkept hstarted payload)
  · exact hnext (handled_handleAgentMessage h hkept hstarted message phase memoryCitation)
  · rw [handleEvent, handleAgentReasoning]
    split_ifs
    · exact hnext (handled_self h hkept)
    · exact hnext (handled_handleReasoningText h hstarted _)
  · rw [handleEvent, handleAgentReasoningRawContent]
    split_ifs
    · exact hnext (handled_self h hkept)
    · exact hnext (handled_handleReasoningText h hstarted _)
  · exact hnext (handled_handleTool h hkept hstarted env event callId turnId payload
      (hid callId rfl))
  · exact hnext (handled_handleGuardianAssessment h hkept hstarted env payload hid)
  · exact hnext (h.pushGenerated hstarted rfl)
  · exact hnext (h.pushGenerated hstarted rfl)
  · exact hnext (h.pushGenerated hstarted rfl)
  · exact hnext (handled_handleTurnItem h hkept turnId item hid)
  · exact hnext (handled_handleTurnItem h hkept turnId item hid)
  · exact hnext (handled_handleError h hkept message info)
  · exact hnext (handled_handleThreadRollback h hkept hchanges numTurns)
  · exact hnext (handled_updateTurnOrCurrent h hkept turnId false (fun _ => rfl) fun _ => rfl)
  · obtain ⟨hnew, hform⟩ := hproper.started turnId rfl
    exact handled_handleTurnStarted h hkept turnId startedAt hnew hform
  · exact hnext (handled_updateTurnOrCurrent h hkept (some turnId) true (fun _ => rfl) fun _ => rfl)
  · exact hnext (handled_self h hkept)

lemma handled_handleRecord
    (hkept : Kept builder) (hstarted : ∀ id ∈ started, ∀ n, id ≠ rolloutTurnId n)
    (hchanges : builder.activeChangeSet = some .empty) {item : RolloutItem Value}
    (hproper : RolloutItem.Proper env started builder item) :
    Handled mirror (started ++ item.startedTurnId.toList) index
      (builder.handleRecord env draws item) := by
  have hnext : ∀ {builder' : Builder Value}, Handled mirror started index builder' →
      Handled mirror (started ++ []) index builder' := by
    rw [List.append_nil]
    exact id
  rcases item with _ | item | _ | _ | compacted | _ | _ | event
  case eventMsg => exact handled_handleEvent h hkept hstarted hchanges hproper
  case compacted => exact hnext (handled_handleCompacted h hstarted)
  case responseItem =>
    refine hnext (handled_handleResponseItem h hkept hstarted env item fun id hid => ?_)
    rcases id with _ | id
    · exact absurd hid hproper.hook
    · refine ⟨id, rfl, hproper.itemId id ?_, hproper.pushedOnce id hid⟩
      change (RolloutItem.hookPromptId env (.responseItem item)).join = some id
      rw [hid]
      rfl
  all_goals exact hnext (handled_self h hkept)

end Builder

/-- Between records: the mirror has the turns of the builder. -/
structure Mirrors (started : List Text) (count : ℕ) (state : Mirror Value × Builder Value) :
    Prop where
  represents : Represents state.1 state.2.allTurns
  wellFormed : WellFormed started count state.2.allTurns
  generated : ∀ turn, state.2.currentTurn = some turn → ∀ item ∈ turn.items, ∀ n,
    item.id = Builder.itemId n → n < state.2.nextItemIndex
  kept : state.2.Kept
  next : state.2.nextRolloutIndex = count
  untracked : state.2.activeChangeSet = none

lemma Mirrors.new : Mirrors [] 0 ((.empty, .new) : Mirror Value × Builder Value) where
  represents := Represents.empty
  wellFormed := ⟨List.nodup_nil, fun _ h => absurd h List.not_mem_nil,
    fun _ h => absurd h List.not_mem_nil⟩
  generated _ h := absurd h.symm (Option.some_ne_none _)
  kept _ h := absurd h.symm (Option.some_ne_none _)
  next := rfl
  untracked := rfl

/-- **The changes of a record** take the mirror to the turns after it. -/
theorem Mirrors.applyItem {env : HistoryEnv Value} {draws : Draws} {started : List Text} {count : ℕ}
    {state : Mirror Value × Builder Value} {item : RolloutItem Value}
    (h : Mirrors started count state) (hstarted : ∀ id ∈ started, ∀ n, id ≠ Builder.rolloutTurnId n)
    (hproper : item.Proper env started state.2) :
    Mirrors (started ++ item.startedTurnId.toList) (count + 1)
      (Mirror.applyItem env draws state item) := by
  rcases state with ⟨mirror, builder⟩
  have htracks : Tracks mirror (some .empty) builder.allTurns :=
    ⟨.empty, rfl, by rw [Mirror.apply_empty]; exact h.represents⟩
  let opened : Builder Value :=
    { builder with
      activeChangeSet := some .empty
      currentRolloutIndex := builder.nextRolloutIndex
      nextRolloutIndex := builder.nextRolloutIndex + 1 }
  have hhandling : Builder.Handling mirror started count count opened :=
    ⟨htracks, h.wellFormed, h.generated, h.next, congrArg Nat.succ h.next⟩
  obtain ⟨hhandled, hkept⟩ : Builder.Handled mirror (started ++ item.startedTurnId.toList) count
      (opened.handleRecord env draws item) :=
    Builder.handled_handleRecord hhandling h.kept hstarted rfl
      ⟨hproper.started, hproper.itemId, hproper.hook, hproper.pushedOnce⟩
  obtain ⟨recorded, hsome, hrep⟩ := hhandled.tracks
  refine ⟨?_, hhandled.wellFormed, hhandled.generated, hkept, ?_, rfl⟩
  · change Represents (mirror.apply ((opened.handleRecord env draws item).activeChangeSet.getD
      .empty)) (opened.handleRecord env draws item).allTurns
    rw [hsome]
    exact hrep
  · rw [← h.next] at hhandled ⊢
    exact hhandled.next

/-! ### A rollout -/

/-- The turns that a replay of the records has built. -/
def replay (env : HistoryEnv Value) (draws : Draws) (items : List (RolloutItem Value)) :
    Builder Value :=
  items.foldl (Builder.handleRolloutItem env draws) .new

/-- The ids of a rollout are not mixed up: those that open turns are different and not of the form
`rollout-N`, those of items are not of the form `item-N` and are not pushed into a turn that has
them, and hook prompts have ids. -/
structure ProperIds (env : HistoryEnv Value) (draws : Draws) (items : List (RolloutItem Value)) :
    Prop where
  started_nodup : (items.filterMap RolloutItem.startedTurnId).Nodup
  started : ∀ id ∈ items.filterMap RolloutItem.startedTurnId, ∀ n, id ≠ Builder.rolloutTurnId n
  itemIds : ∀ item ∈ items, ∀ id, item.itemId env = some id → ∀ n, id ≠ Builder.itemId n
  hooks : ∀ item ∈ items, item.hookPromptId env ≠ some none
  pushedOnce : ∀ before item after, items = before ++ item :: after →
    ∀ id, item.hookPromptId env = some (some id) →
    ∀ turn, (replay env draws before).currentTurn = some turn → id ∉ turn.items.map ThreadItem.id

lemma ProperIds.item {env : HistoryEnv Value} {draws : Draws}
    {items before after : List (RolloutItem Value)} {item : RolloutItem Value}
    (h : ProperIds env draws items) (hitems : items = before ++ item :: after) :
    item.Proper env (before.filterMap RolloutItem.startedTurnId) (replay env draws before) := by
  have hmem : item ∈ items := hitems ▸ List.mem_append_right _ List.mem_cons_self
  refine ⟨fun id hid => ⟨?_, ?_⟩, h.itemIds item hmem, h.hooks item hmem,
    h.pushedOnce before item after hitems⟩
  · have hnodup := h.started_nodup
    rw [hitems, List.filterMap_append, List.filterMap_cons_some hid, List.nodup_append] at hnodup
    exact fun hbefore => hnodup.2.2 id hbefore id List.mem_cons_self rfl
  · exact h.started id (List.mem_filterMap.mpr ⟨item, hmem, hid⟩)

section run

variable {env : HistoryEnv Value} {draws draws' : Draws}

lemma mirrors_foldl {all : List (RolloutItem Value)} (h : ProperIds env draws' all)
    (before items : List (RolloutItem Value)) (hall : all = before ++ items)
    {state : Mirror Value × Builder Value}
    (hmirrors : Mirrors (before.filterMap RolloutItem.startedTurnId) before.length state)
    (hbuilder : state.2 = replay env draws' before) :
    Mirrors (all.filterMap RolloutItem.startedTurnId) all.length
        (items.foldl (Mirror.applyItem env draws) state) ∧
      (items.foldl (Mirror.applyItem env draws) state).2 = replay env draws' all := by
  induction items generalizing before state with
  | nil =>
    rw [List.append_nil] at hall
    subst hall
    exact ⟨hmirrors, hbuilder⟩
  | cons item items ih =>
    have hproper := h.item hall
    have hmem : item ∈ all := hall ▸ List.mem_append_right _ List.mem_cons_self
    have hstarted : ∀ id ∈ before.filterMap RolloutItem.startedTurnId,
        ∀ n, id ≠ Builder.rolloutTurnId n := by
      intro id hid
      apply h.started id
      rw [hall, List.filterMap_append]
      exact List.mem_append_left _ hid
    rw [← hbuilder] at hproper
    have hstep : Mirrors _ _ (Mirror.applyItem env draws state item) :=
      hmirrors.applyItem hstarted hproper
    apply ih (before ++ [item])
    · rw [hall, List.append_assoc, List.singleton_append]
    · rw [List.filterMap_append, List.length_append, List.length_singleton]
      rcases hid : item.startedTurnId with _ | id
      · rw [hid] at hstep
        rwa [List.filterMap_cons_none hid]
      · rw [hid] at hstep
        rwa [List.filterMap_cons_some hid]
    · have hnext := Builder.handleRolloutItemWithChanges_snd env draws draws' hmirrors.untracked
        (h.hooks item hmem)
      rw [replay, List.foldl_append]
      refine hnext.trans ?_
      rw [hbuilder]
      rfl

/-- **Incremental history is full replay**: however the records are cut into batches, the mirror
has the turns that the whole rollout builds. -/
theorem mirror_eq_replay {items : List (RolloutItem Value)} (h : ProperIds env draws' items)
    {batches : List (List (RolloutItem Value))} (hcut : batches.flatten = items) :
    (Mirror.applyBatches env draws (.empty, .new) batches).1.view =
      buildTurnsFromRolloutItems env draws' items := by
  have hrun : Mirrors _ _ (items.foldl (Mirror.applyItem env draws) (.empty, .new)) ∧ _ :=
    mirrors_foldl h [] items rfl Mirrors.new rfl
  obtain ⟨hmirrors, hbuilder⟩ := hrun
  rw [Mirror.applyBatches_eq_foldl, hcut, hmirrors.represents.view_eq, hbuilder,
    buildTurnsFromRolloutItems, Builder.finish]
  have hkept := hmirrors.kept
  rw [hbuilder] at hkept
  exact (congrArg Builder.turns (Builder.Handling.finishCurrentTurn_eq hkept)).symm

end run

/-! ### Examples -/

/-- An environment that knows one hook prompt. -/
def sampleEnv : HistoryEnv Text where
  hookPromptXml text :=
    if text = "<hook_prompt hook_run_id=\"hook-run-1\">Retry.</hook_prompt>".toList then
      some ⟨"Retry.".toList, "hook-run-1".toList⟩
    else none
  toolFields _ payload := payload
  guardianFields _ payload := payload

/-- Draws that are one id. -/
def sampleDraws (id : String) : Draws := ⟨fun _ => id.toList, fun _ => id.toList⟩

/-- The message of the hook prompt. -/
def sampleHookPrompt (id : Option Text) : RolloutItem Text :=
  .responseItem (.message id "user".toList
    [.inputText "<hook_prompt hook_run_id=\"hook-run-1\">Retry.</hook_prompt>".toList] none none)

/-- A user message. -/
def sampleUserMessage (message : String) : RolloutItem Text :=
  .eventMsg (.userMessage ⟨none, message.toList, none, [], [], [], []⟩)

/-- A turn with a search that ends late, a turn that is rolled back, and an implicit one. -/
def sampleItems : List (RolloutItem Text) :=
  [.eventMsg (.turnStarted "turn-a".toList none), sampleUserMessage "first",
    .eventMsg (.tool .webSearchBegin "call-1".toList [] "begin".toList),
    .eventMsg (.turnComplete "turn-a".toList none none),
    .eventMsg (.turnStarted "turn-b".toList none), sampleUserMessage "second",
    .eventMsg (.tool .execCommandEnd "call-1".toList "turn-a".toList "end".toList),
    .eventMsg (.threadRolledBack 1), sampleUserMessage "third"]

lemma ne_itemId {id : Text} (h : id.take 5 ≠ "item-".toList) (n : ℕ) : id ≠ Builder.itemId n := by
  rintro rfl
  exact h (List.take_left' rfl)

lemma ne_rolloutTurnId {id : Text} (h : id.take 8 ≠ "rollout-".toList) (n : ℕ) :
    id ≠ Builder.rolloutTurnId n := by
  rintro rfl
  exact h (List.take_left' rfl)

lemma sampleItems_properIds (draws : Draws) : ProperIds sampleEnv draws sampleItems := by
  have hstarted : ∀ id ∈ sampleItems.filterMap RolloutItem.startedTurnId,
      id.take 8 ≠ "rollout-".toList := by decide +kernel
  have hitems : ∀ id ∈ sampleItems.filterMap (RolloutItem.itemId sampleEnv),
      id.take 5 ≠ "item-".toList := by decide +kernel
  have hhooks : ∀ item ∈ sampleItems, item.hookPromptId sampleEnv = none := by decide +kernel
  refine ⟨by decide +kernel, fun id hid => ne_rolloutTurnId (hstarted id hid),
    fun item hitem id hid => ne_itemId (hitems id (List.mem_filterMap.mpr ⟨item, hitem, hid⟩)),
    fun item hitem hhook => ?_, fun before item after hall id hhook => ?_⟩
  · simp [hhooks item hitem] at hhook
  · simp [hhooks item (hall ▸ List.mem_append_right _ List.mem_cons_self)] at hhook

/-- The rollout in three batches. -/
theorem mirror_eq_replay_sampleItems :
    (Mirror.applyBatches sampleEnv (sampleDraws "draw-1") (.empty, .new)
      [sampleItems.take 3, (sampleItems.drop 3).take 2, sampleItems.drop 5]).1.view =
      buildTurnsFromRolloutItems sampleEnv (sampleDraws "draw-2") sampleItems :=
  mirror_eq_replay (sampleItems_properIds _) rfl

/-- A turn that is opened under the id of the implicit turn after it. -/
def collidingItems : List (RolloutItem Text) :=
  [.eventMsg (.turnStarted "rollout-2".toList none),
    .eventMsg (.turnComplete "rollout-2".toList none none), sampleUserMessage "hello"]

/-- **A turn opened under a generated id** gets the items of the turn of that id in the mirror, and
**a hook prompt without an id** gets another one in every replay. -/
theorem mirror_eq_replay_fails :
    ((collidingItems.filterMap RolloutItem.startedTurnId).Nodup ∧
      (∀ item ∈ collidingItems, item.itemId sampleEnv = none) ∧
      (Mirror.applyBatches sampleEnv (sampleDraws "draw-1") (.empty, .new)
        [collidingItems]).1.view ≠
        buildTurnsFromRolloutItems sampleEnv (sampleDraws "draw-1") collidingItems) ∧
    (sampleHookPrompt none).startedTurnId = none ∧ (sampleHookPrompt none).itemId sampleEnv = none ∧
      (Mirror.applyBatches sampleEnv (sampleDraws "draw-1") (.empty, .new)
        [[sampleHookPrompt none]]).1.view ≠
        buildTurnsFromRolloutItems sampleEnv (sampleDraws "draw-2") [sampleHookPrompt none] := by
  refine ⟨⟨?_, ?_, ?_⟩, ?_, ?_, ?_⟩
  · decide +kernel
  · decide +kernel
  · decide +kernel
  · decide +kernel
  · decide +kernel
  · decide +kernel

end Codex.ThreadHistory
