import Codex.Session.Segments

/-!
# The rollback law

Reconstructing a rollout that ends in `ThreadRolledBack(n)`, compared with reconstructing what
`rollBack n` keeps of it. The reverse scan finds the same in both. The forward replay runs over the
removed part too and then drops `n` instruction turns from the history; the removed part has opened
exactly `n` of them, or fewer than `n` when the whole rollout goes.
-/

namespace Codex.Session

open Codex.Lib Codex.Protocol Codex.Context Codex.ContextManager

variable {Value Snapshot : Type} {env : ReplayEnv Value Snapshot}

/-! ### The forward replay of the removed part -/

section Replay

variable (env)

/-- What one record does to the items of the history, where it is no compaction. -/
def replayHistory (items : List (ResponseItem Value)) :
    RolloutItem Value → List (ResponseItem Value)
  | .eventMsg (.threadRolledBack numTurns) =>
    dropLastMarked (isUserTurnBoundary env.toContextEnv)
      (isPreTurnContextUpdate env.toContextEnv) numTurns items
  | item => items ++ recordedItems env item

lemma items_recordItem (history : ContextManager Value (TurnContextItem Value) Snapshot)
    (item : ResponseItem Value) :
    (history.recordItem env.toContextEnv item).items =
      history.items ++ recordedItem env.toContextEnv item := by
  unfold recordItem recordedItem
  split_ifs
  · rfl
  · exact (List.append_nil _).symm

variable (replay : ForwardReplay Value Snapshot)

lemma items_replayItem {item : RolloutItem Value} (h : isCompaction item = false) :
    (replayItem env replay item).history.items = replayHistory env replay.history.items item := by
  cases item with
  | compacted compacted => exact absurd h (by simp [isCompaction])
  | responseItem item => exact items_recordItem env replay.history item
  | interAgentCommunication communication => exact items_recordItem env replay.history _
  | eventMsg event =>
    cases event with
    | threadRolledBack numTurns =>
      exact items_dropLastNUserTurns env.toContextEnv replay.history numTurns
    | _ => exact (List.append_nil _).symm
  | _ => exact (List.append_nil _).symm

lemma sawLegacyCompaction_replayItem (item : RolloutItem Value) :
    (replayItem env replay item).sawLegacyCompaction =
      (replay.sawLegacyCompaction || isLegacyCompaction item) := by
  cases item with
  | compacted compacted =>
    rcases hhistory : compacted.replacementHistory with _ | history
    · simp [replayItem, isLegacyCompaction, hhistory]
    · simp [replayItem, isLegacyCompaction, hhistory]
  | eventMsg event => cases event <;> exact (Bool.or_false _).symm
  | _ => exact (Bool.or_false _).symm

lemma sawLegacyCompaction_foldl (records : List (RolloutItem Value)) :
    (records.foldl (replayItem env) replay).sawLegacyCompaction =
      (replay.sawLegacyCompaction || records.any isLegacyCompaction) := by
  induction records generalizing replay with
  | nil => exact (Bool.or_false _).symm
  | cons record records ih =>
    rw [List.foldl_cons, ih, sawLegacyCompaction_replayItem, List.any_cons, Bool.or_assoc]

lemma sawLegacyCompaction_suffix {rollout suffix : List (RolloutItem Value)}
    (h : rollout.any isLegacyCompaction = false) (hsuffix : suffix <:+ rollout)
    (base : Option (List (ResponseItem Value))) :
    (replayForward env base suffix : ForwardReplay Value Snapshot).sawLegacyCompaction = false := by
  rw [replayForward, sawLegacyCompaction_foldl, Bool.false_or, List.any_eq_false]
  intro item hitem
  exact List.any_eq_false.mp h item (hsuffix.subset hitem)

/-- Without compactions the replay is a fold over the items of the history alone. -/
theorem foldl_replayItem {records : List (RolloutItem Value)}
    (h : records.any isCompaction = false) :
    (records.foldl (replayItem env) replay).history.items =
      records.foldl (replayHistory env) replay.history.items := by
  induction records generalizing replay with
  | nil => rfl
  | cons record records ih =>
    rw [List.any_cons, Bool.or_eq_false_iff] at h
    rw [List.foldl_cons, List.foldl_cons, ih _ h.2, items_replayItem env replay h.1]

lemma foldl_replayHistory_body {turnId : Text} {body : List (RolloutItem Value)}
    (hbody : ∀ item ∈ body, belongsToTurn turnId item = true) (items : List (ResponseItem Value)) :
    body.foldl (replayHistory env) items = items ++ body.flatMap (recordedItems env) := by
  induction body generalizing items with
  | nil => exact (List.append_nil _).symm
  | cons record body ih =>
    have hrecord : replayHistory env items record = items ++ recordedItems env record := by
      have hbelongs := hbody record List.mem_cons_self
      cases record with
      | eventMsg event =>
        cases event with
        | threadRolledBack numTurns => exact absurd hbelongs (by simp [belongsToTurn])
        | _ => rfl
      | _ => rfl
    rw [List.foldl_cons, hrecord, ih fun item hitem => hbody item (List.mem_cons_of_mem _ hitem),
      List.flatMap_cons, List.append_assoc]

variable (segment : TurnSegment env)

lemma foldl_replayHistory_turn (items : List (ResponseItem Value)) :
    (RolloutChunk.turn segment).items.foldl (replayHistory env) items =
      items ++ segment.body.flatMap (recordedItems env) := by
  rw [RolloutChunk.items, List.foldl_cons, ← foldl_replayHistory_body env segment.belongs]
  exact congrArg (segment.body.foldl (replayHistory env)) (List.append_nil items)

lemma foldl_replayHistory_outside {record : RolloutItem Value}
    (h : isOutsideTurns record = true) (items : List (ResponseItem Value)) :
    (.outside record h : RolloutChunk env).items.foldl (replayHistory env) items = items := by
  have hnone : ∀ record : RolloutItem Value, isOutsideTurns record = true →
      replayHistory env items record = items := by
    intro record h
    cases record with
    | eventMsg event =>
      cases event with
      | other event => exact List.append_nil items
      | _ => exact absurd h (by simp [isOutsideTurns])
    | sessionMeta contextWindowId => exact List.append_nil items
    | interAgentCommunicationMetadata triggerTurn => exact List.append_nil items
    | _ => exact absurd h (by simp [isOutsideTurns])
  exact hnone record h

lemma countP_context {context : List (ResponseItem Value)}
    (h : ∀ item ∈ context, isPreTurnContextUpdate env.toContextEnv item = true) :
    context.countP (isUserTurnBoundary env.toContextEnv) = 0 := by
  refine List.countP_eq_zero.mpr fun item hitem => ?_
  simp [isPreTurnContextUpdate_not_boundary env.toContextEnv item (h item hitem)]

/-- A turn opens one instruction turn in the history, or none. -/
theorem countP_recordedItems :
    (segment.body.flatMap (recordedItems env)).countP (isUserTurnBoundary env.toContextEnv) =
      if segment.isUserTurn then 1 else 0 := by
  by_cases huser : segment.isUserTurn = true
  · obtain ⟨context, boundary, rest, hitems, hcontext, hboundary, hrest⟩ :=
      segment.instruction huser
    rw [if_pos huser, hitems, List.countP_append, List.countP_cons_of_pos hboundary,
      countP_context env hcontext, hrest]
  · rw [if_neg huser]
    refine List.countP_eq_zero.mpr fun item hitem hboundary => huser ?_
    obtain ⟨record, hrecord, hitem⟩ := List.mem_flatMap.mp hitem
    refine List.any_eq_true.mpr ⟨record, hrecord, ?_⟩
    cases record with
    | responseItem response =>
      simp only [recordedItems, recordedItem] at hitem
      split_ifs at hitem
      · obtain rfl := List.mem_singleton.mp hitem
        rwa [isUserTurnBoundary_processItem] at hboundary
      · cases hitem
    | interAgentCommunication communication => rfl
    | _ => exact absurd hitem (by simp [recordedItems])

variable {q : List (ResponseItem Value)}

/-- A chunk of the removed part keeps the oldest removed boundary and what stands before it. -/
theorem replay_chunk_cut (chunk : RolloutChunk env) {pending : ℕ} {b : ResponseItem Value}
    (hb : isUserTurnBoundary env.toContextEnv b = true) (p : List (ResponseItem Value))

    (hcount : (b :: q).countP (isUserTurnBoundary env.toContextEnv) =
      chunk.pendingBefore (pending + 1)) :
    ∃ q', chunk.items.foldl (replayHistory env) (p ++ b :: q) = p ++ b :: q' ∧
      (b :: q').countP (isUserTurnBoundary env.toContextEnv) = pending + 1 := by
  have hpos : 0 < (b :: q).countP (isUserTurnBoundary env.toContextEnv) := by
    rw [List.countP_cons_of_pos hb]
    omega
  cases chunk with
  | turn segment =>
    refine ⟨q ++ segment.body.flatMap (recordedItems env), ?_, ?_⟩
    · rw [foldl_replayHistory_turn, List.append_assoc, List.cons_append]
    · rw [← List.cons_append, List.countP_append, countP_recordedItems, hcount]
      rw [RolloutChunk.pendingBefore] at hcount ⊢
      split_ifs at hcount ⊢ <;> omega
  | rolledBack numTurns =>
    rw [RolloutChunk.pendingBefore] at hcount
    obtain ⟨q', hdrop, hcount'⟩ := dropLastMarked_append
      (isPreTurnContextUpdate_not_boundary env.toContextEnv) hb p q (by omega : numTurns < _)
    exact ⟨q', hdrop, by omega⟩
  | outside record h => exact ⟨q, foldl_replayHistory_outside env h _, hcount⟩

variable {items : List (ResponseItem Value)} {removed : List (RolloutChunk env)}

/-- With fewer boundaries than pending turns, the removed part keeps it so. -/
theorem replay_chunk_all (chunk : RolloutChunk env) {pending : ℕ}
    (hcount : items.countP (isUserTurnBoundary env.toContextEnv) <
      chunk.pendingBefore (pending + 1)) :
    (chunk.items.foldl (replayHistory env) items).countP (isUserTurnBoundary env.toContextEnv) <
      pending + 1 := by
  cases chunk with
  | turn segment =>
    rw [foldl_replayHistory_turn, List.countP_append, countP_recordedItems]
    rw [RolloutChunk.pendingBefore] at hcount
    split_ifs at hcount ⊢ <;> omega
  | rolledBack numTurns =>
    rw [RolloutChunk.pendingBefore] at hcount
    have hdrop := countP_dropLastMarked (isPreTurnContextUpdate_not_boundary env.toContextEnv)
      numTurns items
    change (dropLastMarked _ _ numTurns items).countP _ < _
    omega
  | outside record h =>
    rw [foldl_replayHistory_outside]
    exact hcount

variable {n pending : ℕ}

lemma replay_removed_cut (h : Skips n removed pending) {b : ResponseItem Value}
    (hb : isUserTurnBoundary env.toContextEnv b = true) (p : List (ResponseItem Value))

    (hcount : (b :: q).countP (isUserTurnBoundary env.toContextEnv) = pending) :
    ∃ q', (rolloutItems removed).foldl (replayHistory env) (p ++ b :: q) = p ++ b :: q' ∧
      (b :: q').countP (isUserTurnBoundary env.toContextEnv) = n := by
  induction h generalizing q with
  | nil => exact ⟨q, rfl, hcount⟩
  | @cons pending chunk removed hremoved ih =>
    obtain ⟨q', hchunk, hcount'⟩ := replay_chunk_cut env chunk hb p hcount
    rw [rolloutItems_cons, List.foldl_append, hchunk]
    exact ih hcount'

lemma replay_removed_all (h : Skips n removed pending)
    (hcount : items.countP (isUserTurnBoundary env.toContextEnv) < pending) :
    ((rolloutItems removed).foldl (replayHistory env) items).countP
      (isUserTurnBoundary env.toContextEnv) < n := by
  induction h generalizing items with
  | nil => exact hcount
  | @cons pending chunk removed hremoved ih =>
    rw [rolloutItems_cons, List.foldl_append]
    exact ih (replay_chunk_all env chunk hcount)

/-- The removed part opens with a user turn: its context, and the oldest removed boundary. -/
theorem replay_removed (h : Skips n removed pending) (hzero : pending = 0)
    (hn : 0 < n) (items : List (ResponseItem Value)) :
    ∃ context b q, (rolloutItems removed).foldl (replayHistory env) items =
        (items ++ context) ++ b :: q ∧
      (∀ item ∈ context, isPreTurnContextUpdate env.toContextEnv item = true) ∧
      isUserTurnBoundary env.toContextEnv b = true ∧
      (b :: q).countP (isUserTurnBoundary env.toContextEnv) = n := by
  cases h with
  | nil => omega
  | @cons pending chunk removed hremoved =>
    cases chunk with
    | rolledBack numTurns =>
      rw [RolloutChunk.pendingBefore] at hzero
      omega
    | outside record h => exact absurd hzero (by simp [RolloutChunk.pendingBefore])
    | turn segment =>
      rw [RolloutChunk.pendingBefore] at hzero
      by_cases huser : segment.isUserTurn = true
      · rw [if_pos huser] at hzero
        obtain ⟨context, b, rest, hitems, hcontext, hb, hrest⟩ := segment.instruction huser
        have hcount : (b :: rest).countP (isUserTurnBoundary env.toContextEnv) = pending + 1 := by
          rw [List.countP_cons_of_pos hb]
          omega
        obtain ⟨q, hreplay, hn⟩ := replay_removed_cut env hremoved hb (items ++ context) hcount
        refine ⟨context, b, q, ?_, hcontext, hb, hn⟩
        rw [rolloutItems_cons, List.foldl_append, foldl_replayHistory_turn, hitems,
          ← List.append_assoc, hreplay]
      · rw [if_neg huser] at hzero
        omega

/-- The history after a rollback, from the one of the kept part and the one with the removed part
replayed on top: without the context updates above the cut where the kept part has an instruction
turn, and otherwise the items that precede the first instruction turn. -/
def rolledBackHistory (n : ℕ) (kept replayed : List (ResponseItem Value)) :
    List (ResponseItem Value) :=
  if n = 0 then kept
  else if kept.any (isUserTurnBoundary env.toContextEnv) then
    kept.rdropWhile (isPreTurnContextUpdate env.toContextEnv)
  else replayed.takeWhile (!isUserTurnBoundary env.toContextEnv ·)

/-- The rollback marker, replayed after the removed part. -/
theorem dropLastMarked_removed (n : ℕ) (rollout : List (RolloutChunk env))
    (hitems : (rollBack n rollout).pending ≠ 0 → items = []) :
    dropLastMarked (isUserTurnBoundary env.toContextEnv)
        (isPreTurnContextUpdate env.toContextEnv) n
        ((rolloutItems (rollBack n rollout).removed).foldl (replayHistory env) items) =
      rolledBackHistory env n items
        ((rolloutItems (rollBack n rollout).removed).foldl (replayHistory env) items) := by
  have hskips := rollBack_skips n rollout
  rcases Nat.eq_zero_or_pos n with rfl | hn
  · rw [hskips.eq_nil, dropLastMarked_zero]
    rfl
  rw [rolledBackHistory, if_neg (by omega)]
  by_cases hzero : (rollBack n rollout).pending = 0
  · obtain ⟨context, b, q, hreplay, hcontext, hb, hcount⟩ :=
      replay_removed env hskips hzero hn items
    rw [hreplay]
    have hcontextCount : context.countP (isUserTurnBoundary env.toContextEnv) = 0 :=
      countP_context env hcontext
    by_cases hany : items.any (isUserTurnBoundary env.toContextEnv) = true
    · have hpos : 0 < (items ++ context).countP (isUserTurnBoundary env.toContextEnv) := by
        obtain ⟨item, hitem, hboundary⟩ := List.any_eq_true.mp hany
        exact List.countP_pos_iff.mpr ⟨item, List.mem_append_left _ hitem, hboundary⟩
      rw [if_pos hany, dropLastMarked_cut hb hcount hpos, rdropWhile_append_of_all items hcontext]
    · have hnone : items.countP (isUserTurnBoundary env.toContextEnv) = 0 :=
        List.countP_eq_zero.mpr fun item hitem hboundary =>
          hany (List.any_eq_true.mpr ⟨item, hitem, hboundary⟩)
      rw [if_neg hany, dropLastMarked_of_countP_le hn]
      rw [List.countP_append, List.countP_append, hnone, hcontextCount, hcount]
      omega
  · obtain rfl := hitems hzero
    have hnil : ([] : List (ResponseItem Value)).countP (isUserTurnBoundary env.toContextEnv) <
        (rollBack n rollout).pending := by
      rw [List.countP_nil]
      omega
    have hcount := replay_removed_all env hskips hnil
    rw [dropLastMarked_of_countP_le hn (by omega)]
    rfl

/-! ### Rollouts without checkpoints -/

/-- The scan has met no checkpoint. -/
structure Baseless (suffix : List (RolloutItem Value)) (scan : ReverseScan Value) : Prop where
  base : scan.baseReplacementHistory = none
  suffix : scan.rolloutSuffix = suffix
  active : ∀ segment, scan.activeSegment = some segment → segment.baseReplacementHistory = none

namespace Baseless

variable {suffix : List (RolloutItem Value)} {scan : ReverseScan Value} (h : Baseless suffix scan)
include h

lemma getD : (scan.activeSegment.getD {}).baseReplacementHistory = none := by
  cases hactive : scan.activeSegment with
  | none => rfl
  | some segment => exact h.active segment hactive

variable {segment : ActiveReplaySegment Value}

lemma finalize (hsegment : segment.baseReplacementHistory = none) :
    Baseless suffix (finalizeActiveSegment segment { scan with activeSegment := none }) := by
  have hnone : ∀ segment : ActiveReplaySegment Value,
      (none : Option (ActiveReplaySegment Value)) = some segment →
        segment.baseReplacementHistory = none := fun _ hsome => absurd hsome nofun
  rw [finalizeActiveSegment]
  by_cases hpending : 0 < scan.pendingRollbackTurns
  · rw [if_pos hpending]
    split_ifs
    · exact ⟨h.base, h.suffix, hnone⟩
    · exact ⟨h.base, h.suffix, hnone⟩
  · rw [if_neg hpending]
    refine ⟨?_, h.suffix, hnone⟩
    change scan.baseReplacementHistory.or segment.baseReplacementHistory = none
    rw [h.base, hsegment]
    rfl

/-- The segment that is gathered changes, its base does not. -/
theorem setActive (hsegment : segment.baseReplacementHistory = none) :
    Baseless suffix { scan with activeSegment := some segment } :=
  ⟨h.base, h.suffix, fun _ hsome => Option.some.inj hsome ▸ hsegment⟩

omit h

lemma scanItem (h : Baseless suffix scan) {item : RolloutItem Value}
    (hitem : isCheckpoint item = false) (newer : List (RolloutItem Value)) :
    Baseless suffix (scanItem env newer item scan) := by
  cases item with
  | compacted compacted =>
    have hnone : compacted.replacementHistory = none := by simpa [isCheckpoint] using hitem
    refine ⟨h.base, ?_, fun segment hsome => ?_⟩
    · simp [Session.scanItem, hnone, h.suffix]
    · cases hsome
      simp [ActiveReplaySegment.recordCompaction, hnone, h.getD]
  | responseItem item => exact h.setActive h.getD
  | interAgentCommunication communication => exact h.setActive h.getD
  | worldState worldState => exact h.setActive h.getD
  | turnContext ctx =>
    apply h.setActive
    rw [ActiveReplaySegment.recordTurnContext]
    simp only
    split_ifs
    · exact h.getD
    · exact h.getD
  | sessionMeta contextWindowId => exact h
  | interAgentCommunicationMetadata triggerTurn => exact h
  | eventMsg event =>
    cases event with
    | threadRolledBack numTurns => exact ⟨h.base, h.suffix, h.active⟩
    | turnComplete turnId => exact h.setActive h.getD
    | userMessage event => exact h.setActive h.getD
    | other event => exact h
    | turnAborted turnId =>
      rcases hactive : scan.activeSegment with _ | segment
      · cases turnId with
        | none =>
          refine ⟨h.base, h.suffix, fun segment hsome => ?_⟩
          simp [Session.scanItem, hactive] at hsome
        | some turnId =>
          refine ⟨h.base, h.suffix, fun segment hsome => ?_⟩
          simp only [Session.scanItem, hactive, Option.some.injEq] at hsome
          rw [← hsome]
      · refine ⟨h.base, h.suffix, fun segment' hsome => ?_⟩
        simp only [Session.scanItem, hactive, Option.some.injEq] at hsome
        rw [← hsome]
        exact h.active segment hactive
    | turnStarted turnId =>
      rw [Session.scanItem]
      split
      next segment hactive =>
        split_ifs
        · exact h.finalize (h.active segment hactive)
        · exact h
      next => exact h

lemma scanBack (h : Baseless suffix scan) {items : List (RolloutItem Value)}
    (hitems : items.any isCheckpoint = false) (newer : List (RolloutItem Value)) :
    Baseless suffix (scanBack env newer items scan) := by
  induction items with
  | nil => exact h
  | cons item items ih =>
    rw [List.any_cons, Bool.or_eq_false_iff] at hitems
    rw [Session.scanBack]
    split_ifs
    · exact ih hitems.2
    · exact (ih hitems.2).scanItem env hitems.1 (items ++ newer)

lemma finish (h : Baseless suffix scan) : Baseless suffix scan.finish := by
  rw [ReverseScan.finish]
  split
  next segment hactive => exact h.finalize (h.active segment hactive)
  next => exact h

end Baseless

/-- Without compactions the whole rollout is replayed. -/
theorem history_noCompaction {items : List (RolloutItem Value)}
    (h : items.any isCompaction = false) :
    (reconstructHistoryFromRollout env items).history = items.foldl (replayHistory env) [] := by
  have hnew : Baseless items ({ rolloutSuffix := items } : ReverseScan Value) :=
    ⟨rfl, rfl, fun _ hsome => absurd hsome nofun⟩
  have hcheckpoint : items.any isCheckpoint = false :=
    (Bool.or_eq_false_iff.mp (any_isCompaction items ▸ h)).1
  have hscan : Baseless items (reverseScan env items) := (hnew.scanBack env hcheckpoint []).finish
  change (replayForward env (reverseScan env items).baseReplacementHistory
    (reverseScan env items).rolloutSuffix).history.items = _
  rw [hscan.base, hscan.suffix]
  exact foldl_replayItem env _ h

/-- From a checkpoint on, the replay suffix does not depend on the one before. -/
theorem rolloutSuffix_scanBack_congr {suffix suffix' : List (RolloutItem Value)}
    {scan scan' : ReverseScan Value} (h : Baseless suffix scan) (h' : Baseless suffix' scan')
    (hmetadata : scan.metadata = scan'.metadata) (newer : List (RolloutItem Value))
    {items : List (RolloutItem Value)} (hcheckpoint : items.any isCheckpoint = true) :
    (scanBack env newer items scan).rolloutSuffix =
      (scanBack env newer items scan').rolloutSuffix := by
  induction items with
  | nil => cases hcheckpoint
  | cons item items ih =>
    have hsame : (scanBack env newer items scan).metadata =
        (scanBack env newer items scan').metadata := scanBack_metadata env hmetadata items
    by_cases hrest : items.any isCheckpoint = true
    · -- the two scans are the same from here on
      have heq : scanBack env newer items scan = scanBack env newer items scan' := by
        have hsuffix := ih hrest
        revert hsame hsuffix
        generalize scanBack env newer items scan = older
        generalize scanBack env newer items scan' = older'
        intro hsame hsuffix
        calc older = older.metadata.mapSuffix (fun _ => older.rolloutSuffix) := rfl
          _ = older'.metadata.mapSuffix (fun _ => older'.rolloutSuffix) := by rw [hsame, hsuffix]
          _ = older' := rfl
      rw [scanBack, scanBack, heq]
    · -- the first checkpoint cuts both suffixes
      rw [Bool.not_eq_true] at hrest
      rw [List.any_cons, hrest, Bool.or_false] at hcheckpoint
      have hcut : ∀ {suffix : List (RolloutItem Value)} {scan : ReverseScan Value},
          Baseless suffix scan →
          (scanBack env newer (item :: items) scan).rolloutSuffix = items ++ newer := by
        intro suffix scan h
        have hbaseless := h.scanBack env hrest newer
        have hnot : (scanBack env newer items scan).isResolved = false := by
          rw [ReverseScan.isResolved, hbaseless.base]
          rfl
        rw [scanBack, hnot]
        cases item with
        | compacted compacted =>
          rw [isCheckpoint] at hcheckpoint
          simp [scanItem, hbaseless.getD, hcheckpoint]
        | _ => exact absurd hcheckpoint (by simp [isCheckpoint])
      rw [hcut h, hcut h']

end Replay

/-! ### The rollback law -/

section Law

variable (env)

variable (n : ℕ)

variable (rollout : List (RolloutChunk env))

/-- What follows the kept part when the rollback is recorded. -/
def rolledBackTail : List (RolloutItem Value) :=
  rolloutItems (rollBack n rollout).removed ++ [.eventMsg (.threadRolledBack n)]

lemma rolloutItems_rollBack :
    rolloutItems rollout ++ [.eventMsg (.threadRolledBack n)] =
      rolloutItems (rollBack n rollout).kept ++ rolledBackTail env n rollout := by
  rw [rolledBackTail, ← List.append_assoc, ← rolloutItems_append, (rollBack_append n rollout).1]

/-- The marker and the removed part, scanned from the end of the rollout. -/
theorem scanBack_tail (suffix : List (RolloutItem Value)) :
    ∃ suffix', scanBack env [] (rolledBackTail env n rollout) { rolloutSuffix := suffix } =
        skipping (rollBack n rollout).pending suffix' ∧
      ((rolloutItems (rollBack n rollout).removed).any isCheckpoint = false →
        suffix' = suffix) := by
  have hmarker : scanBack env [] [.eventMsg (.threadRolledBack n)] { rolloutSuffix := suffix } =
      skipping n suffix := by
    simp [scanBack, scanItem, skipping, ReverseScan.isResolved]
  rw [rolledBackTail, scanBack_append, hmarker]
  exact scanBack_removed env (rollBack_skips n rollout) _ suffix

/-- The scan after a rollback, once the tail is passed over. -/
theorem reverseScan_tail :
    ∃ suffix, reverseScan env (rolloutItems rollout ++ [.eventMsg (.threadRolledBack n)]) =
        (scanBack env (rolledBackTail env n rollout) (rolloutItems (rollBack n rollout).kept)
          (skipping (rollBack n rollout).pending suffix)).finish ∧
      ((rolloutItems (rollBack n rollout).removed).any isCheckpoint = false →
        suffix = rolloutItems (rollBack n rollout).kept ++ rolledBackTail env n rollout) := by
  obtain ⟨suffix, htail, hsuffix⟩ := scanBack_tail env n rollout
    (rolloutItems (rollBack n rollout).kept ++ rolledBackTail env n rollout)
  refine ⟨suffix, ?_, hsuffix⟩
  rw [reverseScan, rolloutItems_rollBack, scanBack_append, List.append_nil, htail]

/-- The settings and baselines that the scan finds after a rollback are those of the kept part. -/
theorem reverseScan_rolledBack_fields (n : ℕ) (rollout : List (RolloutChunk env)) :
    let rolledBack := reverseScan env (rolloutItems rollout ++ [.eventMsg (.threadRolledBack n)])
    let kept := reverseScan env (rolloutItems (rollBack n rollout).kept)
    rolledBack.baseReplacementHistory = kept.baseReplacementHistory ∧
      rolledBack.previousTurnSettings = kept.previousTurnSettings ∧
      rolledBack.referenceContextItem = kept.referenceContextItem ∧
      rolledBack.worldStateReplay = kept.worldStateReplay := by
  intro rolledBack kept
  obtain ⟨suffix, hscan, -⟩ := reverseScan_tail env n rollout
  have hrolledBack : rolledBack = _ := hscan
  rw [hrolledBack]
  by_cases hzero : (rollBack n rollout).pending = 0
  · apply ReverseScan.eq_of_metadata
    have hsame : (skipping 0 suffix).metadata =
        (skipping 0 (rolloutItems (rollBack n rollout).kept)).metadata := rfl
    have hkept : kept = _ := reverseScan.eq_def env (rolloutItems (rollBack n rollout).kept)
    rw [hzero, hkept, ReverseScan.metadata, ReverseScan.metadata, ← finish_mapSuffix,
      ← finish_mapSuffix]
    exact congrArg ReverseScan.finish (scanBack_metadata env hsame _)
  · -- nothing is kept, and the scan ends with turns still to be removed
    have hnil : kept = { rolloutSuffix := [] } := by
      simp only [kept, (rollBack_append n rollout).2 hzero]
      rfl
    rw [hnil, (rollBack_append n rollout).2 hzero]
    exact ⟨rfl, rfl, rfl, rfl⟩

/-- The removed part is replayed with the rest, unless it holds the only checkpoints. -/
theorem rolloutSuffix_rolledBack
    (h : (rolloutItems (rollBack n rollout).removed).any isCheckpoint = true →
      (rolloutItems (rollBack n rollout).kept).any isCheckpoint = true) :
    (reverseScan env (rolloutItems rollout ++ [.eventMsg (.threadRolledBack n)])).rolloutSuffix =
      (reverseScan env (rolloutItems (rollBack n rollout).kept)).rolloutSuffix ++
        rolledBackTail env n rollout := by
  obtain ⟨suffix, hscan, hsuffix⟩ := reverseScan_tail env n rollout
  rw [hscan]
  by_cases hzero : (rollBack n rollout).pending = 0
  · have hmap := scanBack_mapSuffix env [] (rolledBackTail env n rollout)
      (rolloutItems (rollBack n rollout).kept)
      { rolloutSuffix := rolloutItems (rollBack n rollout).kept }
    rw [List.nil_append] at hmap
    have hextend : (scanBack env (rolledBackTail env n rollout)
        (rolloutItems (rollBack n rollout).kept) (skipping 0
          (rolloutItems (rollBack n rollout).kept ++ rolledBackTail env n rollout))).rolloutSuffix =
        (reverseScan env (rolloutItems (rollBack n rollout).kept)).rolloutSuffix ++
          rolledBackTail env n rollout := by
      rw [reverseScan, rolloutSuffix_finish]
      exact congrArg ReverseScan.rolloutSuffix hmap
    rw [rolloutSuffix_finish, hzero, ← hextend]
    cases hcheckpoint : (rolloutItems (rollBack n rollout).removed).any isCheckpoint with
    | false => rw [hsuffix hcheckpoint]
    | true =>
      have hskipping : ∀ suffix : List (RolloutItem Value), Baseless suffix (skipping 0 suffix) :=
        fun _ => ⟨rfl, rfl, fun _ hsome => by cases hsome⟩
      have hmetadata : (skipping 0 suffix).metadata =
          (skipping 0 (rolloutItems (rollBack n rollout).kept ++
            rolledBackTail env n rollout)).metadata := rfl
      exact rolloutSuffix_scanBack_congr env (hskipping _) (hskipping _) hmetadata _
        (h hcheckpoint)
  · -- nothing is kept
    have hkept := (rollBack_append n rollout).2 hzero
    rw [hkept] at h
    have hnone : (rolloutItems (rollBack n rollout).removed).any isCheckpoint = false :=
      Bool.eq_false_iff.mpr fun hremoved => absurd (h hremoved) (by simp [rolloutItems])
    rw [hsuffix hnone, hkept]
    rfl

variable {rollout : List (RolloutChunk env)}

lemma any_tail (rollout : List (RolloutChunk env)) (n : ℕ) {p : RolloutItem Value → Bool}
    (hp : ∀ numTurns, p (.eventMsg (.threadRolledBack numTurns)) = false) :
    (rolledBackTail env n rollout).any p =
      (rolloutItems (rollBack n rollout).removed).any p := by
  rw [rolledBackTail, List.any_append, List.any_cons, hp]
  exact Bool.or_false _

variable {n : ℕ}

/-- The forward replay after a rollback is the one of the kept part, continued over the tail. -/
theorem replayForward_rolledBack
    (h : (rolloutItems (rollBack n rollout).removed).any isCheckpoint = true →
      (rolloutItems (rollBack n rollout).kept).any isCheckpoint = true) :
    let rolledBack := reverseScan env (rolloutItems rollout ++ [.eventMsg (.threadRolledBack n)])
    let kept := reverseScan env (rolloutItems (rollBack n rollout).kept)
    replayForward env rolledBack.baseReplacementHistory rolledBack.rolloutSuffix =
      (rolledBackTail env n rollout).foldl (replayItem env)
        (replayForward env kept.baseReplacementHistory kept.rolloutSuffix) := by
  intro rolledBack kept
  have hbase : rolledBack.baseReplacementHistory = kept.baseReplacementHistory :=
    (reverseScan_rolledBack_fields env n rollout).1
  have hsuffix : rolledBack.rolloutSuffix = kept.rolloutSuffix ++ rolledBackTail env n rollout :=
    rolloutSuffix_rolledBack env n rollout h
  rw [hbase, hsuffix, replayForward, List.foldl_append]
  rfl

/-- Where the kept part is replayed, a removed legacy compaction clears the reference context, and
nothing else changes it. -/
lemma referenceContextItem_replayed
    (h : (rolloutItems (rollBack n rollout).removed).any isCheckpoint = true →
      (rolloutItems (rollBack n rollout).kept).any isCheckpoint = true) :
    (reconstructHistoryFromRollout env
        (rolloutItems rollout ++ [.eventMsg (.threadRolledBack n)])).referenceContextItem =
      if (rolloutItems (rollBack n rollout).removed).any isLegacyCompaction then none
      else (reconstructHistoryFromRollout env
        (rolloutItems (rollBack n rollout).kept)).referenceContextItem := by
  obtain ⟨-, -, hreference, -⟩ := reverseScan_rolledBack_fields env n rollout
  have hforward := replayForward_rolledBack env h
  have htail := any_tail (p := isLegacyCompaction) env rollout n fun _ => rfl
  simp only [reconstructHistoryFromRollout, reconstructFromScan, hforward, hreference,
    sawLegacyCompaction_foldl, htail]
  cases (rolloutItems (rollBack n rollout).removed).any isLegacyCompaction with
  | false => simp
  | true => simp

/-- Without legacy compactions no replay clears the reference context. -/
lemma referenceContextItem_noLegacy
    (hremoved : (rolloutItems (rollBack n rollout).removed).any isLegacyCompaction = false)
    (hkept : (rolloutItems (rollBack n rollout).kept).any isLegacyCompaction = false) :
    (reconstructHistoryFromRollout env
        (rolloutItems rollout ++ [.eventMsg (.threadRolledBack n)])).referenceContextItem =
      (reconstructHistoryFromRollout env
        (rolloutItems (rollBack n rollout).kept)).referenceContextItem := by
  have hclear : ∀ {items : List (RolloutItem Value)}, items.any isLegacyCompaction = false →
      (replayForward env (reverseScan env items).baseReplacementHistory
        (reverseScan env items).rolloutSuffix :
          ForwardReplay Value Snapshot).sawLegacyCompaction = false := fun hitems =>
    sawLegacyCompaction_suffix env hitems (rolloutSuffix_reverseScan env _) _
  have htail : (rolledBackTail env n rollout).any isLegacyCompaction = false :=
    (any_tail env rollout n fun _ => rfl).trans hremoved
  have hrolledBack : List.any (rolloutItems rollout ++ [.eventMsg (.threadRolledBack n)])
      isLegacyCompaction = false := by
    rw [rolloutItems_rollBack, List.any_append, hkept, htail]
    rfl
  simp only [reconstructHistoryFromRollout, reconstructFromScan, hclear hkept, hclear hrolledBack,
    (reverseScan_rolledBack_fields env n rollout).2.2.1]

lemma history_rolledBack
    (h : (rolloutItems (rollBack n rollout).removed).any isCompaction = false) :
    let rolledBack := reconstructHistoryFromRollout env
      (rolloutItems rollout ++ [.eventMsg (.threadRolledBack n)])
    let kept := reconstructHistoryFromRollout env (rolloutItems (rollBack n rollout).kept)
    rolledBack.history = rolledBackHistory env n kept.history
      (replayForward env (some kept.history)
        (rolloutItems (rollBack n rollout).removed)).history.items := by
  intro rolledBack kept
  have hreplayed := foldl_replayItem env
    ({ history := { items := kept.history } } : ForwardReplay Value Snapshot) h
  have hcheckpoint : (rolloutItems (rollBack n rollout).removed).any isCheckpoint = false :=
    (Bool.or_eq_false_iff.mp (any_isCompaction _ ▸ h)).1
  have htail : (rolledBackTail env n rollout).any isCompaction = false :=
    (any_tail env rollout n fun _ => rfl).trans h
  have hempty : (rollBack n rollout).pending ≠ 0 → kept.history = [] := by
    intro hpending
    simp only [kept, (rollBack_append n rollout).2 hpending]
    rfl
  calc rolledBack.history
      = ((rolledBackTail env n rollout).foldl (replayItem env) (replayForward env
          (reverseScan env (rolloutItems (rollBack n rollout).kept)).baseReplacementHistory
          (reverseScan env
            (rolloutItems (rollBack n rollout).kept)).rolloutSuffix)).history.items :=
        congrArg (fun replay => replay.history.items)
          (replayForward_rolledBack env fun hremoved => absurd hremoved (by simp [hcheckpoint]))
    _ = (rolledBackTail env n rollout).foldl (replayHistory env) kept.history :=
        foldl_replayItem env _ htail
    _ = dropLastMarked (isUserTurnBoundary env.toContextEnv)
          (isPreTurnContextUpdate env.toContextEnv) n
          ((rolloutItems (rollBack n rollout).removed).foldl (replayHistory env) kept.history) := by
        rw [rolledBackTail, List.foldl_append]
        rfl
    _ = _ := by
        rw [dropLastMarked_removed env n rollout hempty, replayForward, ← hreplayed]
        rfl

/-- Reconstructing a rollout after `ThreadRolledBack(n)` and reconstructing its kept part: the same
settings and world state; the same reference context, unless a legacy compaction is removed or the
removed part holds the only checkpoint after a legacy compaction of the kept part; and, where the
removed part holds no compaction, the history of the kept part up to the context around the cut. -/
theorem reconstruct_rolledBack (rollout : List (RolloutChunk env)) (n : ℕ) :
    let split := rollBack n rollout
    let rolledBack := reconstructHistoryFromRollout env
      (rolloutItems rollout ++ [.eventMsg (.threadRolledBack n)])
    let kept := reconstructHistoryFromRollout env (rolloutItems split.kept)
    rolledBack.previousTurnSettings = kept.previousTurnSettings ∧
      rolledBack.worldStateBaseline = kept.worldStateBaseline ∧
      ((rolloutItems split.removed).any isLegacyCompaction = false →
        ((rolloutItems split.removed).any isCheckpoint = true →
          (rolloutItems split.kept).any isLegacyCompaction = true →
            (rolloutItems split.kept).any isCheckpoint = true) →
        rolledBack.referenceContextItem = kept.referenceContextItem) ∧
      ((rolloutItems split.removed).any isLegacyCompaction = true →
        ((rolloutItems split.removed).any isCheckpoint = true →
          (rolloutItems split.kept).any isCheckpoint = true) →
        rolledBack.referenceContextItem = none) ∧
      ((rolloutItems split.removed).any isCompaction = false →
        rolledBack.history = rolledBackHistory env n kept.history
          (replayForward env (some kept.history)
            (rolloutItems split.removed)).history.items) := by
  intro split rolledBack kept
  obtain ⟨-, hsettings, -, hworldState⟩ := reverseScan_rolledBack_fields env n rollout
  refine ⟨hsettings, ?_, ?_, ?_, fun hcompaction => history_rolledBack env hcompaction⟩
  · simp only [rolledBack, kept, reconstructHistoryFromRollout, reconstructFromScan, hworldState]
    rfl
  · intro hlegacy hanchored
    cases hkept : (rolloutItems split.kept).any isLegacyCompaction with
    | false => exact referenceContextItem_noLegacy env hlegacy hkept
    | true =>
      have hreplayed := referenceContextItem_replayed env fun hremoved => hanchored hremoved hkept
      rw [hlegacy] at hreplayed
      exact hreplayed
  · intro hlegacy hanchored
    have hreplayed := referenceContextItem_replayed env hanchored
    rw [hlegacy] at hreplayed
    exact hreplayed

end Law

/-! ### Two turns -/

/-- No text is a hook prompt or an inter-agent message, and nothing exceeds a budget. -/
def plainEnv : ReplayEnv Unit Unit where
  hookPromptRunId _ := none
  parsesAsInterAgentCommunication _ := false
  truncateText text _ := text
  truncateFunctionOutputPayload output := output
  parseUuidV7 _ := none
  snapshotFromValue _ := none
  applyMergePatch _ _ := none

/-- A context update that the session injects. -/
def permissionsUpdate : ResponseItem Unit :=
  .message none "developer".toList
    [.inputText "<permissions instructions>read-only</permissions instructions>".toList] none none

/-- A user message that is one image. -/
def userImage (imageUrl : Text) : ResponseItem Unit :=
  .message none "user".toList [.inputImage imageUrl none] none none

def sketch : ResponseItem Unit := userImage "data:image/png;base64,AAAA".toList

def screenshot : ResponseItem Unit := userImage "data:image/png;base64,BBBB".toList

/-- A turn of a user message, with what is recorded before and after the message. -/
def userTurn (turnId : Text) (context : List (ResponseItem Unit)) (message : ResponseItem Unit)
    (rest : List (RolloutItem Unit)) : List (RolloutItem Unit) :=
  .turnContext ⟨some turnId, "m1".toList, none, none, ()⟩ ::
    context.map .responseItem ++ .responseItem message :: .eventMsg (.userMessage ()) :: rest ++
    [.eventMsg (.turnComplete turnId)]

def sketchTurn : TurnSegment plainEnv where
  turnId := "t1".toList
  body := userTurn "t1".toList [] sketch [.responseItem permissionsUpdate]
  belongs := by decide +kernel
  instruction _ := ⟨[], sketch, [permissionsUpdate], by decide +kernel, by decide +kernel,
    by decide +kernel, by decide +kernel⟩

def screenshotTurn : TurnSegment plainEnv where
  turnId := "t2".toList
  body := userTurn "t2".toList [permissionsUpdate] screenshot []
  belongs := by decide +kernel
  instruction _ := ⟨[permissionsUpdate], screenshot, [], by decide +kernel, by decide +kernel,
    by decide +kernel, by decide +kernel⟩

/-- A turn that ends in a compaction without replacement history, as older versions wrote it. -/
def legacyCompactionTurn : TurnSegment plainEnv where
  turnId := "t3".toList
  body := userTurn "t3".toList [] screenshot
    [.compacted ⟨"summary".toList, none, none, none, none, none⟩]
  belongs := by decide +kernel
  instruction _ := ⟨[], screenshot, [], by decide +kernel, by decide +kernel,
    by decide +kernel, by decide +kernel⟩

/-- A turn whose compaction keeps the message of the turn before it. -/
def checkpointTurn : TurnSegment plainEnv where
  turnId := "t3".toList
  body := userTurn "t3".toList [] screenshot
    [.compacted ⟨"summary".toList, some [sketch], none, none, none, none⟩]
  belongs := by decide +kernel
  instruction _ := ⟨[], screenshot, [], by decide +kernel, by decide +kernel,
    by decide +kernel, by decide +kernel⟩

/-- The reconstruction of turns of `plainEnv`, followed by a rollback of one turn. -/
def reconstructRolledBackOne (turns : List (TurnSegment plainEnv)) :
    RolloutReconstruction Unit Unit :=
  reconstructHistoryFromRollout plainEnv
    (rolloutItems (turns.map .turn) ++ [.eventMsg (.threadRolledBack 1)])

theorem reconstruct_rolledBack_screenshotTurn :
    (reconstructRolledBackOne [sketchTurn, screenshotTurn]).history = [sketch] ∧
      (reconstructRolledBackOne [sketchTurn, checkpointTurn]).referenceContextItem =
        some ⟨some "t1".toList, "m1".toList, none, none, ()⟩ ∧
      (reconstructRolledBackOne [sketchTurn, legacyCompactionTurn]).referenceContextItem =
        none := by
  obtain ⟨-, -, -, -, hhistory⟩ :=
    reconstruct_rolledBack plainEnv [.turn sketchTurn, .turn screenshotTurn] 1
  obtain ⟨-, -, hkept, -⟩ :=
    reconstruct_rolledBack plainEnv [.turn sketchTurn, .turn checkpointTurn] 1
  obtain ⟨-, -, -, hcleared, -⟩ :=
    reconstruct_rolledBack plainEnv [.turn sketchTurn, .turn legacyCompactionTurn] 1
  exact ⟨(hhistory (by decide +kernel)).trans (by decide +kernel),
    (hkept (by decide +kernel) (by decide +kernel)).trans (by decide +kernel),
    hcleared (by decide +kernel) (by decide +kernel)⟩

/-- A rollback is not the removal of the turn: the context recorded before a first turn stays, the
context recorded last by the turn before it goes, and a rolled back compaction without replacement
history still clears the reference context. -/
theorem rollback_not_removal :
    ((rollBack 1 [.turn screenshotTurn]).kept = [] ∧
      (reconstructRolledBackOne [screenshotTurn]).history ≠
        (reconstructHistoryFromRollout plainEnv []).history) ∧
    ((rollBack 1 [.turn sketchTurn, .turn screenshotTurn]).kept = [.turn sketchTurn] ∧
      (reconstructRolledBackOne [sketchTurn, screenshotTurn]).history ≠
        (reconstructHistoryFromRollout plainEnv (rolloutItems [.turn sketchTurn])).history) ∧
    (rollBack 1 [.turn sketchTurn, .turn legacyCompactionTurn]).kept = [.turn sketchTurn] ∧
      (reconstructRolledBackOne [sketchTurn, legacyCompactionTurn]).referenceContextItem ≠
        (reconstructHistoryFromRollout plainEnv
          (rolloutItems [.turn sketchTurn])).referenceContextItem := by
  refine ⟨⟨rfl, ?_⟩, ⟨rfl, ?_⟩, rfl, ?_⟩
  · decide +kernel
  · decide +kernel
  · decide +kernel

end Codex.Session
