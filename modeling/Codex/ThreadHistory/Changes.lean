import Codex.ThreadHistory.Builder

/-!
# Change sets and their mirror

The changes of the records of a batch are coalesced: of the changes of one item or turn the last is
kept, at the place of the first, and the changes of a turn that is removed are dropped. A client
keeps a `Mirror` of the turns, a table of turns and a table of items, and applies to it what it
gets: removed turns are deleted, changed items and turns are replaced or appended.
-/

namespace Codex.ThreadHistory

open Codex.Lib

variable {Value : Type}

/-- The key of `changed_item_indexes` -/
def ItemChange.key (change : ItemChange Value) : Text × Text := (change.turnId, change.item.id)

/-! ### Coalescing -/

/-- `ThreadHistoryChangeAccumulator` -/
structure ChangeAccumulator (Value : Type) where
  changedItems : Slots (@ItemChange.key Value)
  changedTurns : Slots (@TurnChange.turnId Value)
  removedTurnIds : List Text

namespace ChangeAccumulator

/-- `ThreadHistoryChangeAccumulator::default` -/
def empty : ChangeAccumulator Value := ⟨.empty _, .empty _, []⟩

variable (acc : ChangeAccumulator Value)

def pushRemovedTurnId (turnId : Text) : ChangeAccumulator Value :=
  let removedItemKeys := acc.changedItems.indexes.keys.filter fun key => key.1 = turnId
  { changedItems := removedItemKeys.foldl Slots.remove acc.changedItems
    changedTurns := acc.changedTurns.remove turnId
    removedTurnIds := if turnId ∈ acc.removedTurnIds then acc.removedTurnIds
      else acc.removedTurnIds ++ [turnId] }

def pushItemChange (change : ItemChange Value) : ChangeAccumulator Value :=
  { acc with changedItems := acc.changedItems.put change }

def pushTurnChange (change : TurnChange Value) : ChangeAccumulator Value :=
  { acc with changedTurns := acc.changedTurns.put change }

def push (changes : ChangeSet Value) : ChangeAccumulator Value :=
  let acc := changes.removedTurnIds.foldl pushRemovedTurnId acc
  let acc := changes.changedItems.foldl pushItemChange acc
  changes.changedTurns.foldl pushTurnChange acc

def finish : ChangeSet Value where
  changedItems := acc.changedItems.toList
  changedTurns := acc.changedTurns.toList
  removedTurnIds := acc.removedTurnIds

end ChangeAccumulator

/-- The loop of `handle_rollout_items_with_changes` -/
def Builder.handleBatchItem (env : HistoryEnv Value) (draws : Draws)
    (state : ChangeAccumulator Value × Builder Value) (item : RolloutItem Value) :
    ChangeAccumulator Value × Builder Value :=
  let (changes, builder) := state.2.handleRolloutItemWithChanges env draws item
  (state.1.push changes, builder)

def Builder.handleRolloutItemsWithChanges (env : HistoryEnv Value) (draws : Draws)
    (builder : Builder Value) (items : List (RolloutItem Value)) :
    ChangeSet Value × Builder Value :=
  let (acc, builder) := items.foldl (Builder.handleBatchItem env draws) (.empty, builder)
  (acc.finish, builder)

/-! ### The mirror -/

/-- The turns and the items of a client. -/
structure Mirror (Value : Type) where
  turns : List (TurnChange Value)
  items : List (ItemChange Value)

namespace Mirror

/-- No turns. -/
def empty : Mirror Value := ⟨[], []⟩

/-- The removed turns are deleted; changed items and turns are replaced or appended. -/
def apply (mirror : Mirror Value) (changes : ChangeSet Value) : Mirror Value where
  turns := upsertAll TurnChange.turnId changes.changedTurns
    (mirror.turns.filter fun turn => turn.turnId ∉ changes.removedTurnIds)
  items := upsertAll ItemChange.key changes.changedItems
    (mirror.items.filter fun change => change.turnId ∉ changes.removedTurnIds)

/-- The turns with their items. -/
def view (mirror : Mirror Value) : List (Turn Value) :=
  mirror.turns.map fun turn =>
    { id := turn.turnId
      items := (mirror.items.filter fun change => change.turnId = turn.turnId).map (·.item)
      error := turn.error
      status := turn.status
      startedAt := turn.startedAt
      completedAt := turn.completedAt
      durationMs := turn.durationMs }

/-- The change sets of some batches. -/
def applyBatches (env : HistoryEnv Value) (draws : Draws) (state : Mirror Value × Builder Value)
    (batches : List (List (RolloutItem Value))) : Mirror Value × Builder Value :=
  batches.foldl (fun (mirror, builder) items =>
    let (changes, builder) := builder.handleRolloutItemsWithChanges env draws items
    (mirror.apply changes, builder)) state

/-- The changes of one record. -/
def applyItem (env : HistoryEnv Value) (draws : Draws) (state : Mirror Value × Builder Value)
    (item : RolloutItem Value) : Mirror Value × Builder Value :=
  let (changes, builder) := state.2.handleRolloutItemWithChanges env draws item
  (state.1.apply changes, builder)

/-! ### Coalescing does not change what the mirror becomes -/

section coalesce

variable (mirror : Mirror Value) (acc : ChangeAccumulator Value)

lemma apply_empty : mirror.apply .empty = mirror := by
  rcases mirror with ⟨turns, items⟩
  simp [apply, ChangeSet.empty, upsertAll]

lemma apply_items (changes : List (ItemChange Value)) : mirror.apply ⟨changes, [], []⟩ =
    { mirror with items := upsertAll ItemChange.key changes mirror.items } := by
  simp [apply, upsertAll]

variable (changes : List (TurnChange Value))

lemma apply_turns : mirror.apply ⟨[], changes, []⟩ =
    { mirror with turns := upsertAll TurnChange.turnId changes mirror.turns } := by
  simp [apply, upsertAll]

lemma apply_eq (changes : ChangeSet Value) : mirror.apply changes =
    ((mirror.apply ⟨[], [], changes.removedTurnIds⟩).apply ⟨changes.changedItems, [], []⟩).apply
      ⟨[], changes.changedTurns, []⟩ := by
  rw [apply_turns, apply_items]
  rfl

lemma apply_pushRemovedTurnId (turnId : Text) :
    mirror.apply (acc.pushRemovedTurnId turnId).finish =
      (mirror.apply acc.finish).apply ⟨[], [], [turnId]⟩ := by
  have hremoved : ∀ id : Text, id ∉ (acc.pushRemovedTurnId turnId).removedTurnIds ↔
      id ∉ [turnId] ∧ id ∉ acc.removedTurnIds := by
    intro id
    rw [ChangeAccumulator.pushRemovedTurnId, List.mem_singleton]
    by_cases hmem : turnId ∈ acc.removedTurnIds
    · simp only [if_pos hmem]
      refine ⟨fun h => ⟨?_, h⟩, And.right⟩
      rintro rfl
      exact h hmem
    · simp only [if_neg hmem, List.mem_append, List.mem_singleton, not_or, and_comm]
  have hturns : (acc.pushRemovedTurnId turnId).changedTurns.toList =
      acc.changedTurns.toList.filter fun turn => turn.turnId ∉ [turnId] := by
    rw [ChangeAccumulator.pushRemovedTurnId, Slots.toList_remove]
    simp only [List.mem_singleton, ne_eq]
  have hitems : (acc.pushRemovedTurnId turnId).changedItems.toList =
      acc.changedItems.toList.filter fun change => change.turnId ∉ [turnId] := by
    rw [ChangeAccumulator.pushRemovedTurnId, Slots.toList_foldl_remove]
    apply List.filter_congr
    intro change hchange
    have hkey : ItemChange.key change ∈ acc.changedItems.indexes.keys :=
      Slots.key_mem_indexes hchange
    simp only [List.mem_filter, hkey, true_and, decide_eq_true_eq, List.mem_singleton]
    rfl
  rw [apply, apply, apply, ChangeAccumulator.finish, ChangeAccumulator.finish]
  simp only [hturns, hitems, hremoved]
  congr 1
  · rw [upsertAll_nil, filter_upsertAll (fun _ _ h => by rw [h]), List.filter_filter]
    simp only [Bool.decide_and]
  · rw [upsertAll_nil, filter_upsertAll, List.filter_filter]
    · simp only [Bool.decide_and]
    · intro a b h
      have hturn : a.turnId = b.turnId := congrArg Prod.fst h
      rw [hturn]

lemma apply_pushItemChange (change : ItemChange Value) :
    mirror.apply (acc.pushItemChange change).finish =
      (mirror.apply acc.finish).apply ⟨[change], [], []⟩ := by
  have hitems : (acc.pushItemChange change).changedItems.toList =
      upsert ItemChange.key change acc.changedItems.toList := Slots.toList_put _ change
  rw [apply_items, apply, apply, ChangeAccumulator.finish, ChangeAccumulator.finish]
  simp only [hitems, upsertAll_upsert acc.changedItems.nodup_keys]
  rfl

lemma apply_pushTurnChange (change : TurnChange Value) :
    mirror.apply (acc.pushTurnChange change).finish =
      (mirror.apply acc.finish).apply ⟨[], [change], []⟩ := by
  have hturns : (acc.pushTurnChange change).changedTurns.toList =
      upsert TurnChange.turnId change acc.changedTurns.toList := Slots.toList_put _ change
  rw [apply_turns, apply, apply, ChangeAccumulator.finish, ChangeAccumulator.finish]
  simp only [hturns, upsertAll_upsert acc.changedTurns.nodup_keys]
  rfl

lemma apply_foldl_pushRemovedTurnId (turnIds : List Text) :
    mirror.apply (turnIds.foldl ChangeAccumulator.pushRemovedTurnId acc).finish =
      (mirror.apply acc.finish).apply ⟨[], [], turnIds⟩ := by
  induction turnIds generalizing acc with
  | nil => exact (apply_empty _).symm
  | cons turnId turnIds ih =>
    rw [List.foldl_cons, ih, apply_pushRemovedTurnId]
    simp only [apply, upsertAll_nil, List.filter_filter, ← Bool.decide_and, List.mem_cons,
      List.not_mem_nil, or_false, not_or, and_comm]

lemma apply_foldl_pushItemChange (changes : List (ItemChange Value)) :
    mirror.apply (changes.foldl ChangeAccumulator.pushItemChange acc).finish =
      (mirror.apply acc.finish).apply ⟨changes, [], []⟩ := by
  induction changes generalizing acc with
  | nil => exact (apply_empty _).symm
  | cons change changes ih =>
    rw [List.foldl_cons, ih, apply_pushItemChange, apply_items, apply_items, apply_items]
    rfl

lemma apply_foldl_pushTurnChange :
    mirror.apply (changes.foldl ChangeAccumulator.pushTurnChange acc).finish =
      (mirror.apply acc.finish).apply ⟨[], changes, []⟩ := by
  induction changes generalizing acc with
  | nil => exact (apply_empty _).symm
  | cons change changes ih =>
    rw [List.foldl_cons, ih, apply_pushTurnChange, apply_turns, apply_turns, apply_turns]
    rfl

/-- **Coalescing does not change what the mirror becomes.** -/
theorem apply_push (changes : ChangeSet Value) :
    mirror.apply (acc.push changes).finish = (mirror.apply acc.finish).apply changes := by
  rw [ChangeAccumulator.push, apply_foldl_pushTurnChange, apply_foldl_pushItemChange,
    apply_foldl_pushRemovedTurnId, apply_eq _ changes]

end coalesce

section batches

variable (env : HistoryEnv Value) (draws : Draws)

lemma apply_foldl_handleBatchItem (mirror : Mirror Value) (builder : Builder Value)
    (acc : ChangeAccumulator Value) (items : List (RolloutItem Value)) :
    let state := items.foldl (Builder.handleBatchItem env draws) (acc, builder)
    (mirror.apply state.1.finish, state.2) =
      items.foldl (applyItem env draws) (mirror.apply acc.finish, builder) := by
  induction items generalizing acc builder with
  | nil => rfl
  | cons item items ih =>
    have hitem : applyItem env draws (mirror.apply acc.finish, builder) item =
        (mirror.apply (acc.push (builder.handleRolloutItemWithChanges env draws item).1).finish,
          (builder.handleRolloutItemWithChanges env draws item).2) := by
      rw [apply_push]
      rfl
    rw [List.foldl_cons, List.foldl_cons, hitem]
    exact ih _ _

/-- **The mirror sees the records one by one**, whatever the batches. -/
theorem applyBatches_eq_foldl (state : Mirror Value × Builder Value)
    (batches : List (List (RolloutItem Value))) :
    applyBatches env draws state batches = batches.flatten.foldl (applyItem env draws) state := by
  induction batches generalizing state with
  | nil => rfl
  | cons items batches ih =>
    rcases state with ⟨mirror, builder⟩
    have hbatch := apply_foldl_handleBatchItem env draws mirror builder .empty items
    have hempty : mirror.apply ChangeAccumulator.empty.finish = mirror := apply_empty mirror
    rw [hempty] at hbatch
    rw [List.flatten_cons, List.foldl_append, ← hbatch, ← ih]
    rfl

end batches

end Mirror

end Codex.ThreadHistory
