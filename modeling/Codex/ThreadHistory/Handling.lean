import Codex.ThreadHistory.Represents
import Codex.ThreadHistory.Tracking

/-!
# Handling a record

While a record is handled, the mirror together with the changes that are recorded so far has the
turns of the builder; every handler keeps that.

* `Handling.upsertCurrent`, `Handling.ensureTurn`, `Handling.finishCurrentTurn`, ..: what the
  handlers are made of;
* `Builder.handleRecord_spec`: every record.
-/

namespace Codex.ThreadHistory

open Codex.Lib Codex.Protocol

variable {Value : Type}

/-! ### The invariant -/

/-- The mirror, after the changes that are recorded, has the turns. -/
def Tracks (mirror : Mirror Value) (changes : Option (ChangeSet Value))
    (turns : List (Turn Value)) : Prop :=
  ∃ recorded, changes = some recorded ∧ Represents (mirror.apply recorded) turns

namespace Builder

/-- The turns that `finish` returns. -/
def allTurns (builder : Builder Value) : List (Turn Value) :=
  builder.turns ++ (builder.currentTurn.map (·.toTurn)).toList

section tracks

variable {mirror : Mirror Value} {builder : Builder Value} {before after turns : List (Turn Value)}
  {turn turn' : Turn Value}

lemma tracks_recordChangedItem (h : Tracks mirror builder.activeChangeSet (before ++ turn :: after))
    (hnodup : ((before ++ turn :: after).map Turn.id).Nodup) (item : ThreadItem Value) :
    Tracks mirror (builder.recordChangedItem turn.id item).activeChangeSet
      (before ++ { turn with items := upsertTurnItem turn.items item } :: after) := by
  obtain ⟨recorded, hsome, hrep⟩ := h
  refine ⟨{ recorded with changedItems := recorded.changedItems ++ [⟨turn.id, item⟩] }, ?_, ?_⟩
  · rw [recordChangedItem, hsome]
    rfl
  · have hset := hrep.setItem hnodup item
    rw [Mirror.apply_items] at hset
    rw [Mirror.apply, upsertAll_append]
    exact hset

lemma apply_append_changedTurn (recorded : ChangeSet Value) (change : TurnChange Value) :
    mirror.apply { recorded with changedTurns := recorded.changedTurns ++ [change] } =
      (mirror.apply recorded).apply ⟨[], [change], []⟩ := by
  rw [Mirror.apply_turns, Mirror.apply, upsertAll_append]
  rfl

lemma tracks_recordChangedTurn (h : Tracks mirror builder.activeChangeSet (before ++ turn :: after))
    (hnodup : ((before ++ turn :: after).map Turn.id).Nodup) (hid : turn'.id = turn.id)
    (hitems : turn'.items = turn.items) :
    Tracks mirror (builder.recordChangedTurn turn').activeChangeSet (before ++ turn' :: after) := by
  obtain ⟨recorded, hsome, hrep⟩ := h
  refine ⟨{ recorded with changedTurns := recorded.changedTurns ++ [.fromTurn turn'] }, ?_, ?_⟩
  · rw [recordChangedTurn, hsome]
    rfl
  · rw [apply_append_changedTurn]
    exact hrep.setTurn hnodup hid hitems

lemma tracks_recordNewTurn (h : Tracks mirror builder.activeChangeSet turns)
    (hnew : turn.id ∉ turns.map Turn.id) (hitems : turn.items = []) :
    Tracks mirror (builder.recordChangedTurn turn).activeChangeSet (turns ++ [turn]) := by
  obtain ⟨recorded, hsome, hrep⟩ := h
  refine ⟨{ recorded with changedTurns := recorded.changedTurns ++ [.fromTurn turn] }, ?_, ?_⟩
  · rw [recordChangedTurn, hsome]
    rfl
  · rw [apply_append_changedTurn]
    exact hrep.addTurn hnew hitems

end tracks

/-- While the record at an index is handled: the mirror follows the turns, which are well formed,
and the ids that were generated for the current turn are below the counter. -/
structure Handling (mirror : Mirror Value) (started : List Text) (index bound : ℕ)
    (builder : Builder Value) : Prop where
  tracks : Tracks mirror builder.activeChangeSet builder.allTurns
  wellFormed : WellFormed started bound builder.allTurns
  generated : ∀ turn, builder.currentTurn = some turn → ∀ item ∈ turn.items, ∀ n,
    item.id = itemId n → n < builder.nextItemIndex
  current : builder.currentRolloutIndex = index
  next : builder.nextRolloutIndex = index + 1

/-- An implicit turn is never without content, so it is not dropped. -/
def Kept (builder : Builder Value) : Prop :=
  ∀ turn, builder.currentTurn = some turn →
    (turn.items.isEmpty && !turn.openedExplicitly && !turn.sawCompaction) = false

lemma kept_of_items {turns : List (Turn Value)} {turn : PendingTurn Value} {n i j : ℕ}
    {changes : Option (ChangeSet Value)} (h : turn.items ≠ []) :
    Kept ⟨turns, some turn, n, i, j, changes⟩ := by
  intro turn' hturn
  cases hturn
  rw [List.isEmpty_eq_false_iff.mpr h, Bool.false_and, Bool.false_and]

lemma upsertTurnItem_ne_nil (items : List (ThreadItem Value)) (item : ThreadItem Value) :
    upsertTurnItem items item ≠ [] := by
  intro h
  have hkeys : item.id ∈ (upsertTurnItem items item).map ThreadItem.id :=
    mem_keys_upsert.mpr (.inl rfl)
  simp [h] at hkeys

namespace Handling

variable {mirror : Mirror Value} {started : List Text} {index bound : ℕ} {builder : Builder Value}
  {turn : PendingTurn Value} {draws : Draws}

lemma mono {bound' : ℕ} (h : Handling mirror started index bound builder)
    (hle : bound ≤ bound') : Handling mirror started index bound' builder :=
  { h with wellFormed := h.wellFormed.mono hle }

lemma allTurns_of_current (hcurrent : builder.currentTurn = some turn) :
    builder.allTurns = builder.turns ++ turn.toTurn :: [] := by
  rw [allTurns, hcurrent]
  rfl

variable {item : ThreadItem Value} {update : Turn Value → Turn Value}

/-- An item of the current turn that changes, or that is new. -/
theorem upsertCurrent (h : Handling mirror started index bound builder)
    (hcurrent : builder.currentTurn = some turn)
    (hid : ∀ n, item.id = itemId n → n < builder.nextItemIndex) :
    Handling mirror started index bound ({ builder with
      currentTurn := some { turn with items := upsertTurnItem turn.items item }
      }.recordChangedItem turn.id item) := by
  have hturns := allTurns_of_current hcurrent
  have htracks := h.tracks
  have hwell := h.wellFormed
  rw [hturns] at htracks hwell
  have hitems := hwell.itemIds turn.toTurn (List.mem_append_right _ List.mem_cons_self)
  refine ⟨tracks_recordChangedItem htracks hwell.turnIds item,
    hwell.set rfl (nodup_keys_upsert item hitems), ?_, h.current, h.next⟩
  intro turn' hturn' other hother n hn
  cases hturn'
  rcases mem_upsert hother with rfl | hother
  · exact hid n hn
  · exact h.generated turn hcurrent other hother n hn

lemma exists_of_updateTurn {turnId : Text} {turns turns' : List (Turn Value)} {turn' : Turn Value}
    (h : updateTurn turnId update turns = some (turn', turns')) :
    ∃ before turn after, turns = before ++ turn :: after ∧ turn' = update turn ∧
      turns' = before ++ update turn :: after := by
  induction turns generalizing turns' with
  | nil => cases h
  | cons turn turns ih =>
    rw [updateTurn] at h
    split_ifs at h
    · cases h
      exact ⟨[], turn, turns, rfl, rfl, rfl⟩
    · obtain ⟨⟨updated, rest⟩, hrest, heq⟩ := Option.map_eq_some_iff.mp h
      cases heq
      obtain ⟨before, found, after, rfl, rfl, rfl⟩ := ih hrest
      exact ⟨turn :: before, found, after, rfl, rfl, rfl⟩

variable (h : Handling mirror started index bound builder)
include h

lemma upsertItemInTurnId (turnId : Text) (hid : ∀ n, item.id ≠ itemId n) :
    Handling mirror started index bound (builder.upsertItemInTurnId turnId item) := by
  rw [Builder.upsertItemInTurnId]
  split
  next turn hfilter =>
    exact h.upsertCurrent (Option.filter_eq_some_iff.mp hfilter).1 fun n hn => absurd hn (hid n)
  next hfilter =>
    split
    next turn' turns' hupdate =>
      obtain ⟨before, turn, after, hturns, rfl, rfl⟩ := exists_of_updateTurn hupdate
      have hall : builder.allTurns =
          before ++ turn :: (after ++ (builder.currentTurn.map (·.toTurn)).toList) := by
        rw [allTurns, hturns, List.append_assoc, List.cons_append]
      have htracks := h.tracks
      have hwell := h.wellFormed
      rw [hall] at htracks hwell
      have hitems := hwell.itemIds turn (List.mem_append_right _ List.mem_cons_self)
      have hset := hwell.set
        (rfl : { turn with items := upsertTurnItem turn.items item }.id = turn.id)
        (nodup_keys_upsert item hitems)
      have hrecord := tracks_recordChangedItem htracks hwell.turnIds item
      rw [← List.cons_append, ← List.append_assoc] at hset hrecord
      exact ⟨hrecord, hset, h.generated, h.current, h.next⟩
    next => exact h

/-- The status, the error and the times of the current turn. -/
theorem updateCurrentTurn
    (hcurrent : builder.currentTurn = some turn) (hid : ∀ turn, (update turn).id = turn.id)
    (hitems : ∀ turn, (update turn).items = turn.items) :
    Handling mirror started index bound (builder.updateCurrentTurn turn update) := by
  have hturns := allTurns_of_current hcurrent
  have htracks := h.tracks
  have hwell := h.wellFormed
  rw [hturns] at htracks hwell
  have hnodup := hwell.itemIds turn.toTurn (List.mem_append_right _ List.mem_cons_self)
  rw [← hitems] at hnodup
  refine ⟨tracks_recordChangedTurn htracks hwell.turnIds (hid _) (hitems _),
    hwell.set (hid _) hnodup, ?_, h.current, h.next⟩
  intro turn' hturn' item hitem n hn
  cases hturn'
  change item ∈ (update turn.toTurn).items at hitem
  rw [hitems] at hitem
  exact h.generated turn hcurrent item hitem n hn

lemma updateFinishedTurn {turnId : Text} {turn' : Turn Value} {turns' : List (Turn Value)}
    (hupdate : updateTurn turnId update builder.turns = some (turn', turns'))
    (hid : ∀ turn, (update turn).id = turn.id) (hitems : ∀ turn, (update turn).items = turn.items) :
    Handling mirror started index bound
      ({ builder with turns := turns' }.recordChangedTurn turn') := by
  obtain ⟨before, turn, after, hturns, rfl, rfl⟩ := exists_of_updateTurn hupdate
  have hall : builder.allTurns =
      before ++ turn :: (after ++ (builder.currentTurn.map (·.toTurn)).toList) := by
    rw [allTurns, hturns, List.append_assoc, List.cons_append]
  have htracks := h.tracks
  have hwell := h.wellFormed
  rw [hall] at htracks hwell
  have hnodup := hwell.itemIds turn (List.mem_append_right _ List.mem_cons_self)
  rw [← hitems] at hnodup
  have hset := hwell.set (hid turn) hnodup
  have hrecord := tracks_recordChangedTurn htracks hwell.turnIds (hid turn) (hitems turn)
  rw [← List.cons_append, ← List.append_assoc] at hset hrecord
  exact ⟨hrecord, hset, h.generated, h.current, h.next⟩

omit h

lemma finishCurrentTurn_eq (hkept : Kept builder) : builder.finishCurrentTurn =
    { builder with turns := builder.allTurns, currentTurn := none } := by
  rcases builder with ⟨turns, _ | turn, next, i, j, changes⟩
  · rw [Builder.finishCurrentTurn, allTurns]
    exact congrArg (Builder.mk · none next i j changes) (List.append_nil _).symm
  · rw [Builder.finishCurrentTurn]
    simp only
    rw [if_neg (Bool.not_eq_true _ ▸ hkept turn rfl)]
    rfl

lemma allTurns_finishCurrentTurn (hkept : Kept builder) :
    builder.finishCurrentTurn.allTurns = builder.allTurns := by
  rw [finishCurrentTurn_eq hkept]
  exact List.append_nil _

variable (h : Handling mirror started index bound builder)
include h

lemma finishCurrentTurn
    (hkept : Kept builder) : Handling mirror started index bound builder.finishCurrentTurn := by
  have hturns := allTurns_finishCurrentTurn hkept
  rw [finishCurrentTurn_eq hkept] at hturns ⊢
  refine ⟨?_, ?_, fun _ hturn => absurd hturn.symm (Option.some_ne_none _), h.current, h.next⟩
  · rw [hturns]
    exact h.tracks
  · rw [hturns]
    exact h.wellFormed

/-- The turn that a `TurnStarted` opens, or that is opened without one. -/
theorem openTurn (hnone : builder.currentTurn = none) (hnew : turn.id ∉ builder.turns.map Turn.id)
    (hitems : turn.items = [])
    (horigin : turn.id ∈ started ∨ ∃ i < bound, turn.id = rolloutTurnId i) :
    Handling mirror started index bound
      { builder.recordChangedTurn turn.toTurn with currentTurn := some turn } := by
  have hall : builder.allTurns = builder.turns := by
    rw [allTurns, hnone]
    exact List.append_nil _
  have htracks := h.tracks
  have hwell := h.wellFormed
  rw [hall] at htracks hwell
  refine ⟨tracks_recordNewTurn htracks hnew hitems, hwell.add hnew hitems horigin, ?_, h.current,
    h.next⟩
  intro turn' hturn' item hitem
  cases hturn'
  simp [hitems] at hitem

lemma rolloutTurnId_notMem
    (hbound : bound ≤ index) (hstarted : ∀ id ∈ started, ∀ n, id ≠ rolloutTurnId n) :
    rolloutTurnId index ∉ builder.allTurns.map Turn.id := by
  intro hmem
  obtain ⟨turn, hturn, hid⟩ := List.mem_map.mp hmem
  rcases h.wellFormed.origin turn hturn with horigin | ⟨i, hlt, horigin⟩
  · exact hstarted _ horigin index hid
  · have hindex := rolloutTurnId_injective (horigin.symm.trans hid)
    omega

omit h

lemma ensureTurn (h : Handling mirror started index index builder)
    (hstarted : ∀ id ∈ started, ∀ n, id ≠ rolloutTurnId n) (draws : Draws) :
    Handling mirror started index (index + 1) (builder.ensureTurn draws).2 ∧
      (builder.ensureTurn draws).2.currentTurn = some (builder.ensureTurn draws).1 ∧
      (builder.ensureTurn draws).2.nextItemIndex = builder.nextItemIndex := by
  rw [Builder.ensureTurn]
  split
  next turn hcurrent => exact ⟨h.mono (Nat.le_succ _), hcurrent, rfl⟩
  next hcurrent =>
    have hnewId : (builder.newTurn draws none).id = rolloutTurnId index := by
      have hnext : builder.nextRolloutIndex ≠ 0 := by
        rw [h.next]
        exact Nat.succ_ne_zero _
      rw [newTurn, Option.getD_none, if_neg hnext, h.current]
    have hnew : (builder.newTurn draws none).id ∉ builder.turns.map Turn.id := by
      rw [hnewId]
      intro hmem
      apply h.rolloutTurnId_notMem le_rfl hstarted
      rw [allTurns, List.map_append]
      exact List.mem_append_left _ hmem
    exact ⟨(h.mono (Nat.le_succ _)).openTurn hcurrent hnew rfl
      (.inr ⟨index, Nat.lt_succ_self _, hnewId⟩), rfl, rfl⟩

lemma upsertItemInCurrentTurn (h : Handling mirror started index index builder)
    (hstarted : ∀ id ∈ started, ∀ n, id ≠ rolloutTurnId n)
    (hid : ∀ n, item.id = itemId n → n < builder.nextItemIndex) :
    Handling mirror started index (index + 1) (builder.upsertItemInCurrentTurn draws item) ∧
      Kept (builder.upsertItemInCurrentTurn draws item) := by
  obtain ⟨hensured, hcurrent, hnext⟩ := h.ensureTurn hstarted draws
  rw [← hnext] at hid
  exact ⟨hensured.upsertCurrent hcurrent hid, kept_of_items (upsertTurnItem_ne_nil _ item)⟩

lemma pushItemInCurrentTurn_eq
    (hnew : ∀ turn, builder.currentTurn = some turn → item.id ∉ turn.items.map ThreadItem.id) :
    builder.pushItemInCurrentTurn draws item = builder.upsertItemInCurrentTurn draws item := by
  have hensured : item.id ∉ (builder.ensureTurn draws).1.items.map ThreadItem.id := by
    rw [Builder.ensureTurn]
    split
    next turn hcurrent => exact hnew turn hcurrent
    next => exact List.not_mem_nil
  rw [Builder.pushItemInCurrentTurn, Builder.upsertItemInCurrentTurn]
  simp only [upsertTurnItem, upsert_of_notMem hensured]

lemma pushGenerated (h : Handling mirror started index index builder)
    (hstarted : ∀ id ∈ started, ∀ n, id ≠ rolloutTurnId n)
    (hid : item.id = itemId builder.nextItemIndex) :
    Handling mirror started index (index + 1)
        (builder.nextItemId.2.pushItemInCurrentTurn draws item) ∧
      Kept (builder.nextItemId.2.pushItemInCurrentTurn draws item) := by
  have hnext : Handling mirror started index index builder.nextItemId.2 :=
    ⟨h.tracks, h.wellFormed, fun turn hturn other hother n hn =>
      (h.generated turn hturn other hother n hn).trans (Nat.lt_succ_self _), h.current, h.next⟩
  rw [pushItemInCurrentTurn_eq]
  · apply hnext.upsertItemInCurrentTurn hstarted
    intro n hn
    rw [itemId_injective (hn.symm.trans hid)]
    exact Nat.lt_succ_self _
  · intro turn hturn hmem
    obtain ⟨other, hother, heq⟩ := List.mem_map.mp hmem
    have hlt := h.generated turn hturn other hother _ (heq.trans hid)
    exact absurd hlt (lt_irrefl _)

end Handling

/-! ### The handlers -/

section handlers

variable {mirror : Mirror Value} {started : List Text} {index bound : ℕ} {builder : Builder Value}
  {draws : Draws}

lemma kept_upsertItemInTurnId (hkept : Kept builder) (turnId : Text) (item : ThreadItem Value) :
    Kept (builder.upsertItemInTurnId turnId item) := by
  rw [upsertItemInTurnId]
  split
  next => exact kept_of_items (upsertTurnItem_ne_nil _ item)
  next =>
    split
    next => exact hkept
    next => exact hkept

variable {update : Turn Value → Turn Value}

lemma kept_updateCurrentTurn {turn : PendingTurn Value} (hkept : Kept builder)
    (hcurrent : builder.currentTurn = some turn)
    (hitems : ∀ turn, (update turn).items = turn.items) :
    Kept (builder.updateCurrentTurn turn update) := by
  intro turn' hturn'
  cases hturn'
  have hkeep := hkept turn hcurrent
  rwa [← hitems] at hkeep

lemma kept_finishCurrentTurn (hkept : Kept builder) : Kept builder.finishCurrentTurn := by
  rw [Handling.finishCurrentTurn_eq hkept]
  intro turn hturn
  cases hturn

/-- An item that is new to the turn: the turn is opened only once. -/
theorem push_ensureTurn (item : ThreadItem Value) :
    (builder.ensureTurn draws).2.nextItemId.2.pushItemInCurrentTurn draws item =
      builder.nextItemId.2.pushItemInCurrentTurn draws item := by
  rcases builder with ⟨turns, _ | turn, next, i, j, changes⟩
  · rfl
  · rfl

/-- A record that is handled: its index is used up, and the current turn has content. -/
def Handled (mirror : Mirror Value) (started : List Text) (index : ℕ) (builder : Builder Value) :
    Prop :=
  Handling mirror started index (index + 1) builder ∧ Kept builder

variable (h : Handling mirror started index index builder) (hkept : Kept builder)
  (hstarted : ∀ id ∈ started, ∀ n, id ≠ rolloutTurnId n)

include h hkept

lemma handled_self : Handled mirror started index builder := ⟨h.mono (Nat.le_succ _), hkept⟩

variable (turnId : Text) (env : HistoryEnv Value)

lemma handled_upsertItemInTurnId {item : ThreadItem Value} (hid : ∀ n, item.id ≠ itemId n) :
    Handled mirror started index (builder.upsertItemInTurnId turnId item) :=
  ⟨(h.upsertItemInTurnId turnId hid).mono (Nat.le_succ _),
    kept_upsertItemInTurnId hkept turnId item⟩

lemma handled_handleTurnItem (item : TurnItem)
    (hid : ∀ id, item.id = some id → ∀ n, id ≠ itemId n) :
    Handled mirror started index (builder.handleTurnItem turnId item) := by
  rcases item with ⟨id, text⟩ | ⟨id, durationMs⟩ | _
  · rw [handleTurnItem]
    split_ifs
    · exact handled_self h hkept
    · exact handled_upsertItemInTurnId h hkept turnId (hid id rfl)
  · exact handled_upsertItemInTurnId h hkept turnId (hid id rfl)
  · exact handled_self h hkept

lemma handled_handleError (message : Text) (codexErrorInfo : Option (CodexErrorInfo Value)) :
    Handled mirror started index (builder.handleError message codexErrorInfo) := by
  rw [handleError]
  split_ifs
  · split
    next turn hcurrent =>
      refine ⟨(?_ : Handling mirror started index index _).mono (Nat.le_succ _),
        kept_updateCurrentTurn hkept hcurrent fun _ => rfl⟩
      exact h.updateCurrentTurn hcurrent (fun _ => rfl) fun _ => rfl
    next => exact handled_self h hkept
  · exact handled_self h hkept

lemma handled_updateTurnOrCurrent (turnId : Option Text) (closes : Bool)
    (hid : ∀ turn, (update turn).id = turn.id) (hitems : ∀ turn, (update turn).items = turn.items) :
    Handled mirror started index (builder.updateTurnOrCurrent turnId closes update) := by
  rcases builder.updateTurnOrCurrent_cases turnId closes update with
    ⟨turn, hturn, heq⟩ | ⟨id, turn', turns', hupdate, heq⟩ | heq
  · have hupdated := (h.updateCurrentTurn hturn hid hitems).mono (Nat.le_succ _)
    have hkept' := kept_updateCurrentTurn hkept hturn hitems
    rw [heq]
    split_ifs
    · exact ⟨hupdated.finishCurrentTurn hkept', kept_finishCurrentTurn hkept'⟩
    · exact ⟨hupdated, hkept'⟩
  · rw [heq]
    exact ⟨(h.updateFinishedTurn hupdate hid hitems).mono (Nat.le_succ _), hkept⟩
  · rw [heq]
    exact handled_self h hkept

lemma handled_handleThreadRollback (hchanges : builder.activeChangeSet = some .empty)
    (numTurns : ℕ) : Handled mirror started index (builder.handleThreadRollback numTurns) := by
  obtain ⟨recorded, hsome, hrep⟩ := h.tracks
  obtain rfl := Option.some.inj (hchanges.symm.trans hsome)
  rw [Mirror.apply_empty] at hrep
  have hwell := h.wellFormed
  rw [handleThreadRollback, Handling.finishCurrentTurn_eq hkept]
  simp only
  set kept := builder.allTurns.length - numTurns
  rw [← List.take_append_drop kept builder.allTurns] at hrep hwell
  refine ⟨⟨⟨⟨[], [], (builder.allTurns.drop kept).map Turn.id⟩, ?_, ?_⟩, ?_, ?_, h.current, h.next⟩,
    ?_⟩
  · rw [recordRemovedTurnIds, hchanges]
    rfl
  · change Represents _ (builder.allTurns.take kept ++ [])
    rw [List.append_nil]
    exact hrep.removeTurns hwell.turnIds
  · change WellFormed _ _ (builder.allTurns.take kept ++ [])
    rw [List.append_nil]
    exact hwell.of_append.mono (Nat.le_succ _)
  · exact fun _ hturn => absurd hturn.symm (Option.some_ne_none _)
  · exact fun _ hturn => absurd hturn.symm (Option.some_ne_none _)

lemma handled_handleTurnStarted (startedAt : Option ℤ) (hnew : turnId ∉ started)
    (hid : ∀ n, turnId ≠ rolloutTurnId n) :
    Handled mirror (started ++ [turnId]) index
      (builder.handleTurnStarted draws turnId startedAt) := by
  have hfinished := (h.finishCurrentTurn hkept).mono (Nat.le_succ index)
  have hstart : Handling mirror (started ++ [turnId]) index (index + 1) builder.finishCurrentTurn :=
    { hfinished with wellFormed := hfinished.wellFormed.start turnId }
  have hnone : builder.finishCurrentTurn.currentTurn = none := by
    rw [Handling.finishCurrentTurn_eq hkept]
  have hfresh : turnId ∉ builder.finishCurrentTurn.turns.map Turn.id := by
    rw [Handling.finishCurrentTurn_eq hkept]
    intro hmem
    obtain ⟨turn, hturn, heq⟩ := List.mem_map.mp hmem
    rcases h.wellFormed.origin turn hturn with horigin | ⟨i, -, horigin⟩
    · exact hnew (heq ▸ horigin)
    · exact hid i (heq.symm.trans horigin)
  refine ⟨hstart.openTurn hnone hfresh rfl
    (.inl (List.mem_append_right _ (List.mem_singleton_self _))), ?_⟩
  intro turn hturn
  cases hturn
  rfl

include hstarted

lemma handled_upsertItemInTurnIdOrCurrent {item : ThreadItem Value}
    (hid : ∀ n, item.id ≠ itemId n) :
    Handled mirror started index (builder.upsertItemInTurnIdOrCurrent draws turnId item) := by
  rw [upsertItemInTurnIdOrCurrent]
  split_ifs
  · exact h.upsertItemInCurrentTurn hstarted fun n hn => absurd hn (hid n)
  · exact handled_upsertItemInTurnId h hkept turnId hid

lemma handled_handleUserMessage (payload : UserMessageEvent Value) :
    Handled mirror started index (builder.handleUserMessage draws payload) := by
  rw [handleUserMessage]
  apply Handling.pushGenerated ?_ hstarted rfl
  split
  next =>
    split_ifs
    · exact h.finishCurrentTurn hkept
    · exact h
  next => exact h

lemma handled_handleAgentMessage (text : Text) (phase : Option MessagePhase)
    (memoryCitation : Option Value) :
    Handled mirror started index (builder.handleAgentMessage draws text phase memoryCitation) := by
  rw [handleAgentMessage]
  split_ifs
  · exact handled_self h hkept
  · exact h.pushGenerated hstarted rfl

lemma handled_handleTool (event : ToolEvent) (callId turnId : Text) (payload : Value)
    (hid : ∀ n, callId ≠ itemId n) :
    Handled mirror started index (builder.handleTool env draws event callId turnId payload) := by
  rw [handleTool]
  rcases event.route with _ | _ | _
  · exact h.upsertItemInCurrentTurn hstarted fun n hn => absurd hn (hid n)
  · exact handled_upsertItemInTurnId h hkept turnId hid
  · exact handled_upsertItemInTurnIdOrCurrent h hkept hstarted turnId hid

lemma handled_handleGuardianAssessment (payload : GuardianAssessmentEvent Value)
    (hid : ∀ id, payload.targetItemId = some id → ∀ n, id ≠ itemId n) :
    Handled mirror started index (builder.handleGuardianAssessment env draws payload) := by
  rw [handleGuardianAssessment]
  split_ifs
  · exact handled_self h hkept
  · split
    next => exact handled_self h hkept
    next item hitem =>
      rw [buildItemFromGuardianEvent] at hitem
      split_ifs at hitem
      obtain ⟨id, htarget, rfl⟩ := Option.map_eq_some_iff.mp hitem
      exact handled_upsertItemInTurnIdOrCurrent h hkept hstarted payload.turnId (hid id htarget)

omit hkept in
lemma handled_handleCompacted : Handled mirror started index (builder.handleCompacted draws) := by
  obtain ⟨hensured, hcurrent, -⟩ := h.ensureTurn hstarted draws
  have hturns : (builder.handleCompacted draws).allTurns = (builder.ensureTurn draws).2.allTurns :=
    (Handling.allTurns_of_current hcurrent).symm
  refine ⟨⟨?_, ?_, ?_, hensured.current, hensured.next⟩, ?_⟩
  · rw [hturns]
    exact hensured.tracks
  · rw [hturns]
    exact hensured.wellFormed
  · intro turn hturn
    cases hturn
    exact hensured.generated (builder.ensureTurn draws).1 hcurrent
  · intro turn hturn
    cases hturn
    exact Bool.and_false _

omit hkept in
lemma handled_handleReasoningText (add : List Text × List Text → List Text × List Text) :
    Handled mirror started index (builder.handleReasoningText draws add) := by
  obtain ⟨hensured, hcurrent, hnext⟩ := h.ensureTurn hstarted draws
  have hpush : ∀ summary content, Handled mirror started index
      ((builder.ensureTurn draws).2.nextItemId.2.pushItemInCurrentTurn draws
        (.reasoning (itemId (builder.ensureTurn draws).2.nextItemIndex) summary content)) := by
    intro summary content
    rw [push_ensureTurn, hnext]
    exact h.pushGenerated hstarted rfl
  rw [handleReasoningText]
  simp only
  split
  next id summary content hlast =>
    have hitems := List.dropLast_append_getLast? _ hlast
    set item : ThreadItem Value :=
      .reasoning id (add (summary, content)).1 (add (summary, content)).2
    have hmem : (builder.ensureTurn draws).1.toTurn ∈ (builder.ensureTurn draws).2.allTurns := by
      rw [Handling.allTurns_of_current hcurrent]
      exact List.mem_append_right _ List.mem_cons_self
    have hnodup := hensured.wellFormed.itemIds _ hmem
    have hupsert : upsertTurnItem ((builder.ensureTurn draws).1.items.dropLast ++
        [.reasoning id summary content]) item =
          (builder.ensureTurn draws).1.items.dropLast ++ [item] := by
      rw [← hitems, List.map_append, List.nodup_append] at hnodup
      refine upsert_append_cons (fun hin => ?_) rfl
      exact hnodup.2.2 _ hin _ (List.mem_singleton_self _) rfl
    rw [hitems] at hupsert
    rw [← hupsert]
    refine ⟨hensured.upsertCurrent hcurrent ?_, kept_of_items (upsertTurnItem_ne_nil _ item)⟩
    exact hensured.generated _ hcurrent (.reasoning id summary content) (List.mem_of_getLast? hlast)
  next => exact hpush _ _

lemma handled_handleResponseItem (item : ResponseItem Value)
    (hid : ∀ id, RolloutItem.hookPromptId env (.responseItem item) = some id →
      ∃ id', id = some id' ∧ (∀ n, id' ≠ itemId n) ∧
        ∀ turn, builder.currentTurn = some turn → id' ∉ turn.items.map ThreadItem.id) :
    Handled mirror started index (builder.handleResponseItem env draws item) := by
  rcases item with _ | ⟨id, role, content, phase, metadata⟩ | _
  case message =>
    rw [RolloutItem.hookPromptId] at hid
    rw [handleResponseItem]
    split_ifs with hrole
    · rw [if_pos hrole] at hid
      rcases hfragments : hookPromptFragments env content with _ | fragments
      · exact handled_self h hkept
      · rw [hfragments] at hid
        obtain ⟨id', rfl, hid', hnew⟩ := hid id rfl
        simp only
        rw [Handling.pushItemInCurrentTurn_eq hnew]
        exact h.upsertItemInCurrentTurn hstarted fun n hn => absurd hn (hid' n)
    · exact handled_self h hkept
  all_goals exact handled_self h hkept

end handlers

end Builder

end Codex.ThreadHistory
