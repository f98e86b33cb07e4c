import Codex.Session.RolloutReconstruction

/-!
# Well-delimited rollouts and their rollback

A `TurnSegment` opens with `TurnStarted`, its records name its own turn, and where it counts as a
user turn what it records is context, one instruction-turn boundary, and items that open no turn. A
rollout is a list of such segments, of rollback markers and of records outside of turns.
`rollBack n` splits it at the oldest of the `n` newest user turns that no earlier rollback has
removed already.
-/

namespace Codex.Session

open Codex.Lib Codex.Protocol Codex.Context Codex.ContextManager

variable {Value Snapshot : Type}

/-! ### Well-delimited rollouts -/

/-- The records that a turn can hold after its `TurnStarted`. -/
def belongsToTurn (turnId : Text) : RolloutItem Value → Bool
  | .eventMsg (.turnStarted _) | .eventMsg (.threadRolledBack _) => false
  | .eventMsg (.turnComplete itemTurnId) => itemTurnId == turnId
  | .eventMsg (.turnAborted itemTurnId) => turnIdsAreCompatible (some turnId) itemTurnId
  | .turnContext ctx => turnIdsAreCompatible (some turnId) ctx.turnId
  | _ => true

/-- The records that stand between turns and that the reconstruction passes over. -/
def isOutsideTurns : RolloutItem Value → Bool
  | .sessionMeta _ | .interAgentCommunicationMetadata _ | .eventMsg (.other _) => true
  | _ => false

def isCompaction : RolloutItem Value → Bool
  | .compacted _ => true
  | _ => false

/-- A compaction that a reconstruction can start from. -/
def isCheckpoint : RolloutItem Value → Bool
  | .compacted compacted => compacted.replacementHistory.isSome
  | _ => false

/-- A compaction as older versions recorded it. -/
def isLegacyCompaction : RolloutItem Value → Bool
  | .compacted compacted => compacted.replacementHistory.isNone
  | _ => false

lemma any_isCompaction (items : List (RolloutItem Value)) :
    items.any isCompaction = (items.any isCheckpoint || items.any isLegacyCompaction) := by
  have hitem : ∀ item : RolloutItem Value,
      isCompaction item = (isCheckpoint item || isLegacyCompaction item) := by
    intro item
    cases item with
    | compacted compacted => cases h : compacted.replacementHistory <;>
        simp [isCompaction, isCheckpoint, isLegacyCompaction, h]
    | _ => rfl
  induction items with
  | nil => rfl
  | cons item items ih =>
    simp only [List.any_cons, ih, hitem]
    ac_rfl

variable (env : ReplayEnv Value Snapshot)

/-- The records that make a segment a user turn. -/
def countsAsUserTurn : RolloutItem Value → Bool
  | .responseItem item => isUserTurnBoundary env.toContextEnv item
  | .interAgentCommunication _ | .eventMsg (.userMessage _) => true
  | _ => false

/-- What the forward replay appends to the history for one response item. -/
def recordedItem (env : ContextEnv) (item : ResponseItem Value) : List (ResponseItem Value) :=
  if isApiMessage item then [processItem env item] else []

/-- What the forward replay appends to the history for one record. -/
def recordedItems : RolloutItem Value → List (ResponseItem Value)
  | .responseItem item => recordedItem env.toContextEnv item
  | .interAgentCommunication communication =>
    recordedItem env.toContextEnv communication.toModelInputItem
  | _ => []

/-- Context updates, one instruction-turn boundary, and items that open no turn. -/
def OneInstructionTurn (env : ContextEnv) (items : List (ResponseItem Value)) : Prop :=
  ∃ context boundary rest, items = context ++ boundary :: rest ∧
    (∀ item ∈ context, isPreTurnContextUpdate env item = true) ∧
    isUserTurnBoundary env boundary = true ∧ rest.countP (isUserTurnBoundary env) = 0

/-- A well-delimited turn: `TurnStarted` and the records of that turn. -/
structure TurnSegment (env : ReplayEnv Value Snapshot) where
  turnId : Text
  body : List (RolloutItem Value)
  belongs : ∀ item ∈ body, belongsToTurn turnId item = true
  instruction : body.any (countsAsUserTurn env) = true →
    OneInstructionTurn env.toContextEnv (body.flatMap (recordedItems env))

/-- The parts of a rollout. -/
inductive RolloutChunk (env : ReplayEnv Value Snapshot) where
  | turn (segment : TurnSegment env)
  | rolledBack (numTurns : ℕ)
  | outside (item : RolloutItem Value) (h : isOutsideTurns item = true)

variable {env : ReplayEnv Value Snapshot}

def TurnSegment.isUserTurn (segment : TurnSegment env) : Bool :=
  segment.body.any (countsAsUserTurn env)

def RolloutChunk.items : RolloutChunk env → List (RolloutItem Value)
  | .turn segment => .eventMsg (.turnStarted segment.turnId) :: segment.body
  | .rolledBack numTurns => [.eventMsg (.threadRolledBack numTurns)]
  | .outside item _ => [item]

/-- The records of a rollout, oldest first. -/
def rolloutItems (rollout : List (RolloutChunk env)) : List (RolloutItem Value) :=
  rollout.flatMap RolloutChunk.items

lemma rolloutItems_cons (chunk : RolloutChunk env) (rollout : List (RolloutChunk env)) :
    rolloutItems (chunk :: rollout) = chunk.items ++ rolloutItems rollout := List.flatMap_cons

lemma rolloutItems_append (older newer : List (RolloutChunk env)) :
    rolloutItems (older ++ newer) = rolloutItems older ++ rolloutItems newer := List.flatMap_append

/-- How many user turns are still to be removed before this chunk, when `pending` are after it. -/
def RolloutChunk.pendingBefore (pending : ℕ) : RolloutChunk env → ℕ
  | .turn segment => if segment.isUserTurn then pending - 1 else pending
  | .rolledBack numTurns => pending + numTurns
  | .outside _ _ => pending

/-- A rollout split by a rollback; `pending` turns were asked for and not there. -/
structure RollbackSplit (env : ReplayEnv Value Snapshot) where
  kept : List (RolloutChunk env)
  removed : List (RolloutChunk env)
  pending : ℕ

/-- Removes the newest `n` user turns that earlier rollbacks left, and all that follows the oldest
of them; the whole rollout when there are fewer. -/
def rollBack (n : ℕ) : List (RolloutChunk env) → RollbackSplit env
  | [] => ⟨[], [], n⟩
  | chunk :: newer =>
    let split := rollBack n newer
    if split.pending = 0 then { split with kept := chunk :: split.kept }
    else ⟨split.kept, chunk :: split.removed, chunk.pendingBefore split.pending⟩

/-! ### The split -/

/-- Counting back over chunks from `n` pending turns, never meeting zero on the way. -/
inductive Skips (n : ℕ) : List (RolloutChunk env) → ℕ → Prop where
  | nil : Skips n [] n
  | cons {pending : ℕ} {chunk : RolloutChunk env} {newer : List (RolloutChunk env)}
      (hnewer : Skips n newer (pending + 1)) :
      Skips n (chunk :: newer) (chunk.pendingBefore (pending + 1))

lemma Skips.eq_nil {pending : ℕ} {removed : List (RolloutChunk env)}
    (h : Skips 0 removed pending) : removed = [] := by
  induction h with
  | nil => rfl
  | cons hnewer ih =>
    subst ih
    cases hnewer

lemma rollBack_append (n : ℕ) (rollout : List (RolloutChunk env)) :
    (rollBack n rollout).kept ++ (rollBack n rollout).removed = rollout ∧
      ((rollBack n rollout).pending ≠ 0 → (rollBack n rollout).kept = []) := by
  induction rollout with
  | nil => exact ⟨rfl, fun _ => rfl⟩
  | cons chunk newer ih =>
    obtain ⟨happend, hkept⟩ := ih
    rw [rollBack]
    by_cases hzero : (rollBack n newer).pending = 0
    · rw [if_pos hzero]
      exact ⟨congrArg (chunk :: ·) happend, fun h => absurd hzero h⟩
    · rw [if_neg hzero]
      rw [hkept hzero, List.nil_append] at happend
      exact ⟨by rw [hkept hzero, List.nil_append, happend], fun _ => hkept hzero⟩

lemma rollBack_skips (n : ℕ) (rollout : List (RolloutChunk env)) :
    Skips n (rollBack n rollout).removed (rollBack n rollout).pending := by
  induction rollout with
  | nil => exact .nil
  | cons chunk newer ih =>
    rw [rollBack]
    by_cases hzero : (rollBack n newer).pending = 0
    · rw [if_pos hzero]
      exact ih
    · rw [if_neg hzero]
      obtain ⟨pending, hpending⟩ := Nat.exists_eq_succ_of_ne_zero hzero
      rw [hpending] at ih ⊢
      exact .cons ih

/-! ### The reverse scan of the kept part -/

section Scan

variable (env)

/-- The scan with another replay suffix. -/
def ReverseScan.mapSuffix (f : List (RolloutItem Value) → List (RolloutItem Value))
    (scan : ReverseScan Value) : ReverseScan Value :=
  { scan with rolloutSuffix := f scan.rolloutSuffix }

/-- The scan without its replay suffix: what the settings and baselines come from. -/
def ReverseScan.metadata (scan : ReverseScan Value) : ReverseScan Value :=
  scan.mapSuffix fun _ => []

variable {scan scan' : ReverseScan Value}

lemma ReverseScan.eq_of_metadata (h : scan.metadata = scan'.metadata) :
    scan.baseReplacementHistory = scan'.baseReplacementHistory ∧
      scan.previousTurnSettings = scan'.previousTurnSettings ∧
      scan.referenceContextItem = scan'.referenceContextItem ∧
      scan.worldStateReplay = scan'.worldStateReplay := by
  simp only [ReverseScan.metadata, ReverseScan.mapSuffix, ReverseScan.mk.injEq] at h
  exact ⟨h.1, h.2.1, h.2.2.1, h.2.2.2.1⟩

variable (f : List (RolloutItem Value) → List (RolloutItem Value))

lemma finalizeActiveSegment_mapSuffix (segment : ActiveReplaySegment Value)
    (scan : ReverseScan Value) :
    finalizeActiveSegment segment (scan.mapSuffix f) =
      (finalizeActiveSegment segment scan).mapSuffix f := by
  have hpending : (scan.mapSuffix f).pendingRollbackTurns = scan.pendingRollbackTurns := rfl
  unfold finalizeActiveSegment
  rw [hpending]
  by_cases h : 0 < scan.pendingRollbackTurns
  · rw [if_pos h, if_pos h]
    split_ifs <;> rfl
  · rw [if_neg h, if_neg h]
    rfl

lemma finish_mapSuffix (scan : ReverseScan Value) :
    (scan.mapSuffix f).finish = scan.finish.mapSuffix f := by
  have hactive : (scan.mapSuffix f).activeSegment = scan.activeSegment := rfl
  unfold ReverseScan.finish
  rw [hactive]
  cases scan.activeSegment with
  | none => rfl
  | some segment =>
    exact finalizeActiveSegment_mapSuffix f segment { scan with activeSegment := none }

/-- A step reads the records after it only to cut the replay suffix there. -/
theorem scanItem_mapSuffix (newer : List (RolloutItem Value)) (item : RolloutItem Value)
    (scan : ReverseScan Value) :
    scanItem env (f newer) item (scan.mapSuffix f) =
      (scanItem env newer item scan).mapSuffix f := by
  have hactive : (scan.mapSuffix f).activeSegment = scan.activeSegment := rfl
  cases item with
  | compacted compacted =>
    unfold scanItem
    rw [hactive]
    dsimp only
    split_ifs <;> simp [ReverseScan.mapSuffix, *]
  | eventMsg event =>
    cases event with
    | turnStarted turnId =>
      unfold scanItem
      rw [hactive]
      cases scan.activeSegment with
      | none => rfl
      | some segment =>
        dsimp only
        split_ifs
        · exact finalizeActiveSegment_mapSuffix f segment { scan with activeSegment := none }
        · rfl
    | _ => rfl
  | _ => rfl

lemma scanBack_mapSuffix (newer tail items : List (RolloutItem Value)) (scan : ReverseScan Value) :
    scanBack env (newer ++ tail) items (scan.mapSuffix (· ++ tail)) =
      (scanBack env newer items scan).mapSuffix (· ++ tail) := by
  induction items with
  | nil => rfl
  | cons item items ih =>
    rw [scanBack, scanBack, ih, ← List.append_assoc]
    have hresolved : ((scanBack env newer items scan).mapSuffix (· ++ tail)).isResolved =
        (scanBack env newer items scan).isResolved := rfl
    rw [hresolved, scanItem_mapSuffix env (· ++ tail)]
    split_ifs <;> rfl

lemma scanBack_metadata {newer newer' : List (RolloutItem Value)}
    (h : scan.metadata = scan'.metadata) (items : List (RolloutItem Value)) :
    (scanBack env newer items scan).metadata = (scanBack env newer' items scan').metadata := by
  induction items with
  | nil => exact h
  | cons item items ih =>
    rw [scanBack, scanBack]
    have hresolved : (scanBack env newer items scan).isResolved =
        (scanBack env newer' items scan').isResolved := by
      obtain ⟨hbase, hsettings, hreference, -⟩ := ReverseScan.eq_of_metadata ih
      rw [ReverseScan.isResolved, ReverseScan.isResolved, hbase, hsettings, hreference]
    rw [hresolved]
    split_ifs
    · exact ih
    · -- both steps are the step at the scan without suffix
      have hstep := fun newer => scanItem_mapSuffix env (fun _ => []) newer item
      rw [ReverseScan.metadata, ReverseScan.metadata, ← hstep, ← hstep]
      exact congrArg (scanItem env [] item) ih

/-! ### The reverse scan of the removed part -/

/-- What the scan of a turn's records has gathered: the turn's id or none yet, and whether a record
made it a user turn. -/
def Tracks (turnId : Text) (counts : Bool) : Option (ActiveReplaySegment Value) → Prop
  | none => counts = false
  | some segment =>
    turnIdsAreCompatible segment.turnId (some turnId) = true ∧ segment.countsAsUserTurn = counts

variable {turnId : Text} {counts : Bool}

lemma Tracks.getD {active : Option (ActiveReplaySegment Value)}
    (h : Tracks turnId counts active) : Tracks turnId counts (some (active.getD {})) := by
  cases active with
  | none => exact ⟨rfl, h.symm⟩
  | some segment => exact h

lemma turnIdsAreCompatible_or {activeTurnId itemTurnId : Option Text}
    (hactive : turnIdsAreCompatible activeTurnId (some turnId) = true)
    (hitem : turnIdsAreCompatible (some turnId) itemTurnId = true) :
    turnIdsAreCompatible (activeTurnId.or itemTurnId) (some turnId) = true := by
  cases activeTurnId with
  | some _ => exact hactive
  | none =>
    cases itemTurnId with
    | none => rfl
    | some itemTurnId =>
      have heq : itemTurnId = turnId := by simpa [turnIdsAreCompatible] using hitem
      simp [turnIdsAreCompatible, heq]

lemma Tracks.recordTurnContext {segment : ActiveReplaySegment Value}
    {ctx : TurnContextItem Value} (h : Tracks turnId counts (some segment))
    (hctx : turnIdsAreCompatible (some turnId) ctx.turnId = true) :
    Tracks turnId counts (some (segment.recordTurnContext ctx)) := by
  have hid := turnIdsAreCompatible_or h.1 hctx
  unfold ActiveReplaySegment.recordTurnContext
  dsimp only
  split_ifs
  · exact ⟨hid, h.2⟩
  · exact ⟨hid, h.2⟩

variable (newer : List (RolloutItem Value))

/-- A record of the turn changes the gathered segment only, and the replay suffix where it is a
checkpoint. -/
theorem scanItem_tracks {item : RolloutItem Value} (scan : ReverseScan Value)
    (hitem : belongsToTurn turnId item = true) (h : Tracks turnId counts scan.activeSegment) :
    ∃ active suffix, scanItem env newer item scan =
        { scan with activeSegment := active, rolloutSuffix := suffix } ∧
      Tracks turnId (countsAsUserTurn env item || counts) active ∧
      (isCheckpoint item = false → suffix = scan.rolloutSuffix) := by
  have hsegment := h.getD
  cases item with
  | compacted compacted =>
    refine ⟨_, _, rfl, hsegment, fun hc => if_neg ?_⟩
    rw [isCheckpoint] at hc
    simp [hc]
  | responseItem item =>
    exact ⟨_, _, rfl, ⟨hsegment.1, by simp [countsAsUserTurn, hsegment.2, Bool.or_comm]⟩,
      fun _ => rfl⟩
  | interAgentCommunication communication => exact ⟨_, _, rfl, ⟨hsegment.1, rfl⟩, fun _ => rfl⟩
  | worldState worldState => exact ⟨_, _, rfl, hsegment, fun _ => rfl⟩
  | turnContext ctx => exact ⟨_, _, rfl, hsegment.recordTurnContext hitem, fun _ => rfl⟩
  | sessionMeta contextWindowId => exact ⟨_, _, rfl, h, fun _ => rfl⟩
  | interAgentCommunicationMetadata triggerTurn => exact ⟨_, _, rfl, h, fun _ => rfl⟩
  | eventMsg event =>
    cases event with
    | turnStarted _ => exact absurd hitem (by simp [belongsToTurn])
    | threadRolledBack _ => exact absurd hitem (by simp [belongsToTurn])
    | turnComplete itemTurnId =>
      have hid : turnIdsAreCompatible (some turnId) (some itemTurnId) = true := hitem
      exact ⟨_, _, rfl, ⟨turnIdsAreCompatible_or hsegment.1 hid, hsegment.2⟩, fun _ => rfl⟩
    | turnAborted itemTurnId =>
      refine ⟨_, _, rfl, ?_, fun _ => rfl⟩
      revert h
      cases scan.activeSegment with
      | some segment =>
        intro h
        exact ⟨turnIdsAreCompatible_or h.1 hitem, h.2⟩
      | none =>
        intro h
        cases itemTurnId with
        | none => exact h
        | some itemTurnId =>
          have hnone : turnIdsAreCompatible none (some turnId) = true := rfl
          exact ⟨turnIdsAreCompatible_or hnone hitem, h.symm⟩
    | userMessage event => exact ⟨_, _, rfl, ⟨hsegment.1, rfl⟩, fun _ => rfl⟩
    | other event => exact ⟨_, _, rfl, h, fun _ => rfl⟩

/-- The records of a turn, scanned from a state that gathers nothing. -/
theorem scanBack_tracks (scan : ReverseScan Value) (hactive : scan.activeSegment = none)
    (hresolved : scan.isResolved = false) (newer : List (RolloutItem Value))
    {body : List (RolloutItem Value)} (hbody : ∀ item ∈ body, belongsToTurn turnId item = true) :
    ∃ active suffix, scanBack env newer body scan =
        { scan with activeSegment := active, rolloutSuffix := suffix } ∧
      Tracks turnId (body.any (countsAsUserTurn env)) active ∧
      (body.any isCheckpoint = false → suffix = scan.rolloutSuffix) := by
  induction body with
  | nil =>
    refine ⟨none, scan.rolloutSuffix, ?_, rfl, fun _ => rfl⟩
    rw [scanBack, ← hactive]
  | cons item body ih =>
    obtain ⟨active, suffix, hscan, htracks, hsuffix⟩ :=
      ih fun item hitem => hbody item (List.mem_cons_of_mem _ hitem)
    obtain ⟨active', suffix', hstep, htracks', hsuffix'⟩ :=
      scanItem_tracks env (body ++ newer)
        { scan with activeSegment := active, rolloutSuffix := suffix }
        (hbody item List.mem_cons_self) htracks
    have hnot : ({ scan with activeSegment := active, rolloutSuffix := suffix } :
        ReverseScan Value).isResolved = false := hresolved
    refine ⟨active', suffix', ?_, htracks', fun hc => ?_⟩
    · rw [scanBack, hscan, hnot]
      exact hstep
    · rw [List.any_cons, Bool.or_eq_false_iff] at hc
      exact (hsuffix' hc.1).trans (hsuffix hc.2)

/-- The scan when everything seen so far is rolled back. -/
def skipping (pending : ℕ) (suffix : List (RolloutItem Value)) : ReverseScan Value :=
  { pendingRollbackTurns := pending, rolloutSuffix := suffix }

lemma scanBack_turn (segment : TurnSegment env) (newer : List (RolloutItem Value)) (pending : ℕ)
    (suffix : List (RolloutItem Value)) :
    ∃ suffix', scanBack env newer (RolloutChunk.turn segment).items
          (skipping (pending + 1) suffix) =
        skipping (if segment.isUserTurn then pending else pending + 1) suffix' ∧
      (segment.body.any isCheckpoint = false → suffix' = suffix) := by
  obtain ⟨active, suffix', hscan, htracks, hsuffix⟩ :=
    scanBack_tracks env (skipping (pending + 1) suffix) rfl rfl newer segment.belongs
  refine ⟨suffix', ?_, hsuffix⟩
  have hnot : ({ skipping (pending + 1) suffix with
      activeSegment := active, rolloutSuffix := suffix' } : ReverseScan Value).isResolved = false :=
    rfl
  rw [RolloutChunk.items, scanBack, hscan, hnot, TurnSegment.isUserTurn]
  cases active with
  | none =>
    have hcounts : segment.body.any (countsAsUserTurn env) = false := htracks
    rw [hcounts]
    rfl
  | some active =>
    obtain ⟨hid, hcounts⟩ := htracks
    rw [← hcounts]
    have hpos : 0 < pending + 1 := by omega
    simp only [scanItem, hid, finalizeActiveSegment, skipping, hpos, if_true]
    split_ifs <;> simp_all

lemma scanBack_chunk (chunk : RolloutChunk env) (newer : List (RolloutItem Value)) (pending : ℕ)
    (suffix : List (RolloutItem Value)) :
    ∃ suffix', scanBack env newer chunk.items (skipping (pending + 1) suffix) =
        skipping (chunk.pendingBefore (pending + 1)) suffix' ∧
      (chunk.items.any isCheckpoint = false → suffix' = suffix) := by
  cases chunk with
  | turn segment =>
    obtain ⟨suffix', hscan, hsuffix⟩ := scanBack_turn env segment newer pending suffix
    exact ⟨suffix', hscan, hsuffix⟩
  | rolledBack numTurns => exact ⟨suffix, rfl, fun _ => rfl⟩
  | outside item h =>
    refine ⟨suffix, ?_, fun _ => rfl⟩
    cases item with
    | eventMsg event =>
      cases event with
      | other event => rfl
      | _ => exact absurd h (by simp [isOutsideTurns])
    | sessionMeta contextWindowId => rfl
    | interAgentCommunicationMetadata triggerTurn => rfl
    | _ => exact absurd h (by simp [isOutsideTurns])

/-- The scan passes over the removed part with no trace but the count. -/
theorem scanBack_removed {n pending : ℕ} {removed : List (RolloutChunk env)}
    (h : Skips n removed pending) (newer suffix : List (RolloutItem Value)) :
    ∃ suffix', scanBack env newer (rolloutItems removed) (skipping n suffix) =
        skipping pending suffix' ∧
      ((rolloutItems removed).any isCheckpoint = false → suffix' = suffix) := by
  induction h with
  | nil => exact ⟨suffix, rfl, fun _ => rfl⟩
  | @cons pending chunk removed hremoved ih =>
    obtain ⟨suffix', hscan, hsuffix⟩ := ih
    obtain ⟨suffix'', hchunk, hsuffix'⟩ :=
      scanBack_chunk env chunk (rolloutItems removed ++ newer) pending suffix'
    refine ⟨suffix'', ?_, fun hc => ?_⟩
    · rw [rolloutItems_cons, scanBack_append, hscan, hchunk]
    · rw [rolloutItems_cons, List.any_append, Bool.or_eq_false_iff] at hc
      exact (hsuffix' hc.1).trans (hsuffix hc.2)

/-! ### The replay suffix -/

lemma rolloutSuffix_finish (scan : ReverseScan Value) :
    scan.finish.rolloutSuffix = scan.rolloutSuffix := by
  rw [ReverseScan.finish]
  split
  · rw [finalizeActiveSegment]
    split_ifs <;> rfl
  · rfl

/-- Only a checkpoint cuts the replay suffix, after itself. -/
theorem rolloutSuffix_scanItem (item : RolloutItem Value) (scan : ReverseScan Value) :
    (scanItem env newer item scan).rolloutSuffix = newer ∧ isCheckpoint item = true ∨
      (scanItem env newer item scan).rolloutSuffix = scan.rolloutSuffix := by
  cases item with
  | compacted compacted =>
    rw [scanItem]
    dsimp only
    split_ifs with hcut
    · exact .inl ⟨rfl, (Bool.and_eq_true_iff.mp hcut).2⟩
    · exact .inr rfl
  | eventMsg event =>
    cases event with
    | turnStarted turnId =>
      refine .inr ?_
      rw [scanItem]
      split
      · split_ifs
        · rw [finalizeActiveSegment]
          split_ifs <;> rfl
        · rfl
      · rfl
    | _ => exact .inr rfl
  | _ => exact .inr rfl

lemma rolloutSuffix_scanBack {rollout newer items : List (RolloutItem Value)}
    (hitems : items ++ newer <:+ rollout) {scan : ReverseScan Value}
    (hscan : scan.rolloutSuffix <:+ rollout) :
    (scanBack env newer items scan).rolloutSuffix <:+ rollout := by
  induction items with
  | nil => exact hscan
  | cons item items ih =>
    have hnewer : items ++ newer <:+ rollout := (List.suffix_cons _ _).trans hitems
    have hkept := ih hnewer
    rw [scanBack]
    split_ifs
    · exact hkept
    · rcases rolloutSuffix_scanItem env (items ++ newer) item (scanBack env newer items scan) with
        ⟨hcut, -⟩ | hsame
      · rwa [hcut]
      · rwa [hsame]

lemma rolloutSuffix_reverseScan (rollout : List (RolloutItem Value)) :
    (reverseScan env rollout).rolloutSuffix <:+ rollout := by
  rw [reverseScan, rolloutSuffix_finish]
  exact rolloutSuffix_scanBack env ⟨[], by simp⟩ List.suffix_rfl

end Scan

end Codex.Session
