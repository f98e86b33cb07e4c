import Codex.ContextManager.Compact
import Codex.Lib.Marks

/-!
# The history and its instruction turns

`core/src/context_manager/history.rs`: what `ContextManager` records, which items open an
instruction turn, and `drop_last_n_user_turns`, the rollback of the history. The token accounting
and `history_version` are left out: no function here reads them.

* `isPreTurnContextUpdate_not_boundary`: what a rollback trims never opens a turn;
* `dropLastNUserTurns_add`: rolling back twice is rolling back once, and what precedes the first
  instruction turn stays.
-/

namespace Codex

open Codex.Lib Codex.Protocol Codex.Context

structure ContextManager (Value Ctx Snapshot : Type) where
  items : List (ResponseItem Value) := []
  referenceContextItem : Option Ctx := none
  worldStateBaseline : Option Snapshot := none

namespace ContextManager

variable {Value Ctx Snapshot : Type}

/-! ### Recording -/

def isApiMessage : ResponseItem Value → Bool
  | .message _ role _ _ _ => role != "system".toList
  | .compactionTrigger | .other => false
  | _ => true

variable (env : ContextEnv)

def processItem : ResponseItem Value → ResponseItem Value
  | .functionCallOutput id callId output metadata =>
    .functionCallOutput id callId (env.truncateFunctionOutputPayload output) metadata
  | .customToolCallOutput id callId name output metadata =>
    .customToolCallOutput id callId name (env.truncateFunctionOutputPayload output) metadata
  | item => item

variable (history : ContextManager Value Ctx Snapshot)

/-- The body of `ContextManager::record_items` -/
def recordItem (item : ResponseItem Value) : ContextManager Value Ctx Snapshot :=
  if isApiMessage item then { history with items := history.items ++ [processItem env item] }
  else history

variable (items : List (ResponseItem Value))

def replace : ContextManager Value Ctx Snapshot :=
  { history with items := items, worldStateBaseline := none }

/-! ### Instruction turns -/

/-- `InterAgentCommunication::is_message_content` -/
def isInterAgentInstructionContent : List ContentItem → Bool
  | [.inputText text] | [.outputText text] => env.parsesAsInterAgentCommunication text
  | _ => false

def isUserTurnBoundary : ResponseItem Value → Bool
  | .agentMessage _ _ _ _ _ => true
  | .message _ role content _ _ =>
    (role == "user".toList && !isContextualUserMessageContent env content) ||
      (role == "assistant".toList && isInterAgentInstructionContent env content)
  | _ => false

def userMessagePositions : List ℕ :=
  items.findIdxs (isUserTurnBoundary env)

/-- The arms of `trim_pre_turn_context_updates` that move the cut -/
def isPreTurnContextUpdate : ResponseItem Value → Bool
  | .message _ role content _ _ =>
    (role == "developer".toList && isContextualDevMessageContent content) ||
      (role == "user".toList && isContextualUserMessageContent env content)
  | _ => false

/-- The arm for a mixed bundle, which clears the reference baseline -/
def isMixedDeveloperBundle : ResponseItem Value → Bool
  | .message _ role content _ _ =>
    role == "developer".toList && isContextualDevMessageContent content &&
      hasNonContextualDevMessageContent content
  | _ => false

def trimPreTurnContextUpdates (env : ContextEnv)
    (snapshot : List (ResponseItem Value)) (firstInstructionTurnIdx : ℕ) :
    ℕ → ContextManager Value Ctx Snapshot → ContextManager Value Ctx Snapshot × ℕ
  | 0, history => (history, 0)
  | cutIdx + 1, history =>
    match snapshot[cutIdx]? with
    | none => (history, cutIdx + 1)
    | some item =>
      if firstInstructionTurnIdx < cutIdx + 1 ∧ isPreTurnContextUpdate env item = true then
        trimPreTurnContextUpdates env snapshot firstInstructionTurnIdx cutIdx
          (if isMixedDeveloperBundle item then { history with referenceContextItem := none }
            else history)
      else (history, cutIdx + 1)

def dropLastNUserTurns (numTurns : ℕ) : ContextManager Value Ctx Snapshot :=
  if numTurns = 0 then history
  else
    let snapshot := history.items
    let userPositions := userMessagePositions env snapshot
    match userPositions.head? with
    | none => history.replace snapshot
    | some firstInstructionTurnIdx =>
      let cutIdx :=
        if userPositions.length ≤ numTurns then firstInstructionTurnIdx
        else userPositions.getD (userPositions.length - numTurns) 0
      let (history, cutIdx) :=
        history.trimPreTurnContextUpdates env snapshot firstInstructionTurnIdx cutIdx
      history.replace (snapshot.take cutIdx)

/-! ### What a rollback leaves -/

variable (env : ContextEnv) (item : ResponseItem Value)

@[simp] lemma isUserTurnBoundary_processItem :
    isUserTurnBoundary env (processItem env item) = isUserTurnBoundary env item := by
  cases item <;> rfl

lemma isPreTurnContextUpdate_not_boundary
    (h : isPreTurnContextUpdate env item = true) : isUserTurnBoundary env item = false := by
  cases item with
  | message id role content phase metadata =>
    simp only [isPreTurnContextUpdate, Bool.or_eq_true, Bool.and_eq_true, beq_iff_eq] at h
    rcases h with ⟨rfl, -⟩ | ⟨rfl, hcontent⟩
    · rfl
    · simp [isUserTurnBoundary, hcontent]
  | _ => exact absurd h (by simp [isPreTurnContextUpdate])

/-- The walk never reaches the first instruction turn: the item there is no context update. -/
theorem trimPreTurnContextUpdates_spec {first : ℕ} (kept rest : List (ResponseItem Value))
    (hfirst : first < kept.length)
    (hstop : ∀ item ∈ (kept ++ rest)[first]?, isPreTurnContextUpdate env item = false)
    (history : ContextManager Value Ctx Snapshot) :
    (history.trimPreTurnContextUpdates env (kept ++ rest) first kept.length).2 =
      (kept.rdropWhile (isPreTurnContextUpdate env)).length := by
  induction kept using List.reverseRecOn generalizing rest history with
  | nil => cases hfirst
  | append_singleton kept item ih =>
    have hget : (kept ++ [item] ++ rest)[kept.length]? = some item := by simp
    rw [List.length_append, List.length_singleton] at hfirst ⊢
    rw [trimPreTurnContextUpdates, hget]
    by_cases hitem : isPreTurnContextUpdate env item = true
    · have hne : first ≠ kept.length := by
        rintro rfl
        simp [hstop item hget] at hitem
      have hassoc : kept ++ [item] ++ rest = kept ++ item :: rest := by simp
      simp only [hitem, hfirst, and_self, if_true]
      rw [List.rdropWhile_concat_pos _ _ _ hitem, hassoc]
      exact ih (item :: rest) (by omega) (hassoc ▸ hstop) _
    · rw [List.rdropWhile_concat_neg _ _ _ hitem]
      simp [hitem]

lemma trimPreTurnContextUpdates_at_first (snapshot : List (ResponseItem Value)) (first : ℕ)
    (history : ContextManager Value Ctx Snapshot) :
    (history.trimPreTurnContextUpdates env snapshot first first).2 = first := by
  cases first with
  | zero => rfl
  | succ first =>
    rw [trimPreTurnContextUpdates]
    cases snapshot[first]? with
    | none => rfl
    | some item => simp

variable {b : ResponseItem Value}

lemma userMessagePositions_head? {before v : List (ResponseItem Value)}
    (hbefore : before.countP (isUserTurnBoundary env) = 0) (hb : isUserTurnBoundary env b = true) :
    (userMessagePositions env (before ++ b :: v)).head? = some before.length := by
  have hnone : before.findIdxs (isUserTurnBoundary env) = [] :=
    List.eq_nil_of_length_eq_zero (List.length_findIdxs.trans hbefore)
  rw [userMessagePositions, List.findIdxs_append, hnone, List.findIdxs_cons, if_pos hb,
    List.nil_append, List.head?_cons, Nat.zero_add]

variable {u v : List (ResponseItem Value)}

lemma userMessagePositions_getD_cut (hb : isUserTurnBoundary env b = true) :
    (userMessagePositions env (u ++ b :: v)).getD
        ((userMessagePositions env (u ++ b :: v)).length -
          (b :: v).countP (isUserTurnBoundary env)) 0 = u.length := by
  have hlength : (userMessagePositions env (u ++ b :: v)).length -
      (b :: v).countP (isUserTurnBoundary env) = (u.findIdxs (isUserTurnBoundary env)).length := by
    rw [userMessagePositions, List.length_findIdxs, List.countP_append, List.length_findIdxs]
    omega
  rw [hlength, userMessagePositions, List.findIdxs_append, List.findIdxs_cons, if_pos hb]
  simp

lemma items_dropLastNUserTurns_of_head? {first numTurns : ℕ} (hpos : 0 < numTurns)
    (history : ContextManager Value Ctx Snapshot)
    (hhead : (userMessagePositions env history.items).head? = some first) :
    (history.dropLastNUserTurns env numTurns).items =
      history.items.take (history.trimPreTurnContextUpdates env history.items first
        (if (userMessagePositions env history.items).length ≤ numTurns then first
          else (userMessagePositions env history.items).getD
            ((userMessagePositions env history.items).length - numTurns) 0)).2 := by
  have hne : numTurns ≠ 0 := by omega
  simp only [dropLastNUserTurns, hne, if_false, hhead]
  rfl

/-- At most `numTurns` turns: all of them go, and what stands before the first one stays. -/
theorem dropLastNUserTurns_all {numTurns : ℕ} (hpos : 0 < numTurns)
    (history : ContextManager Value Ctx Snapshot)
    (hcount : history.items.countP (isUserTurnBoundary env) ≤ numTurns) :
    (history.dropLastNUserTurns env numTurns).items =
      history.items.takeWhile (!isUserTurnBoundary env ·) := by
  have hlength : (userMessagePositions env history.items).length =
      history.items.countP (isUserTurnBoundary env) := List.length_findIdxs
  rcases Nat.eq_zero_or_pos (history.items.countP (isUserTurnBoundary env)) with hzero | hsome
  · have hnil : userMessagePositions env history.items = [] :=
      List.eq_nil_of_length_eq_zero (hlength.trans hzero)
    have hne : numTurns ≠ 0 := by omega
    simp only [dropLastNUserTurns, hne, if_false, hnil, List.head?_nil]
    refine (List.takeWhile_eq_self_iff.mpr fun item hitem => ?_).symm
    simpa using List.countP_eq_zero.mp hzero item hitem
  · obtain ⟨b, v, hitems, hb⟩ := exists_first_marked hsome
    have hhead := userMessagePositions_head? env (v := v) (countP_takeWhile_not history.items) hb
    rw [← hitems] at hhead
    rw [items_dropLastNUserTurns_of_head? env hpos history hhead, if_pos (by omega),
      trimPreTurnContextUpdates_at_first]
    exact (List.prefix_iff_eq_take.mp (List.takeWhile_prefix _)).symm

/-- With more turns than are rolled back the cut falls on a boundary below the first one. -/
theorem dropLastNUserTurns_cut
    (hb : isUserTurnBoundary env b = true) (hu : 0 < u.countP (isUserTurnBoundary env))
    (history : ContextManager Value Ctx Snapshot) (hitems : history.items = u ++ b :: v) :
    (history.dropLastNUserTurns env ((b :: v).countP (isUserTurnBoundary env))).items =
      u.rdropWhile (isPreTurnContextUpdate env) := by
  obtain ⟨c, w, hsplit, hc⟩ := exists_first_marked hu
  set before := u.takeWhile (!isUserTurnBoundary env ·) with hbefore
  have hwhole : u ++ b :: v = before ++ c :: (w ++ b :: v) := by
    rw [hsplit, List.append_assoc, List.cons_append]
  have hstop : ∀ item ∈ (u ++ b :: v)[before.length]?, isPreTurnContextUpdate env item = false := by
    intro item hitem
    obtain rfl : c = item := by simpa [hwhole] using hitem
    by_contra h
    simp [isPreTurnContextUpdate_not_boundary env c (by simpa using h)] at hc
  have hfirst : before.length < u.length := by
    rw [hsplit]
    simp
  have hhead : (userMessagePositions env history.items).head? = some before.length := by
    rw [hitems, hwhole]
    exact userMessagePositions_head? env (countP_takeWhile_not u) hc
  have hpos : 0 < (b :: v).countP (isUserTurnBoundary env) := by
    rw [List.countP_cons_of_pos hb]
    omega
  have hmore : ¬ (userMessagePositions env (u ++ b :: v)).length ≤
      (b :: v).countP (isUserTurnBoundary env) := by
    rw [userMessagePositions, List.length_findIdxs, List.countP_append]
    omega
  rw [items_dropLastNUserTurns_of_head? env hpos history hhead, hitems, if_neg hmore,
    userMessagePositions_getD_cut env hb, trimPreTurnContextUpdates_spec env u _ hfirst hstop]
  obtain ⟨trimmed, htrimmed⟩ := List.rdropWhile_prefix (isPreTurnContextUpdate env) u
  nth_rewrite 2 [← htrimmed]
  rw [List.append_assoc, List.take_left]

/-- A rollback of the history cuts it back by instruction turns. -/
theorem items_dropLastNUserTurns (history : ContextManager Value Ctx Snapshot) (numTurns : ℕ) :
    (history.dropLastNUserTurns env numTurns).items =
      dropLastMarked (isUserTurnBoundary env) (isPreTurnContextUpdate env) numTurns
        history.items := by
  rcases Nat.eq_zero_or_pos numTurns with rfl | hpos
  · rw [dropLastMarked_zero, dropLastNUserTurns, if_pos rfl]
  by_cases hmore : history.items.countP (isUserTurnBoundary env) ≤ numTurns
  · rw [dropLastMarked_of_countP_le hpos hmore, dropLastNUserTurns_all env hpos history hmore]
  · obtain ⟨u, b, v, hitems, hb, hcount⟩ := exists_marked_cut hpos (by omega :
      numTurns ≤ history.items.countP (isUserTurnBoundary env))
    have hu : 0 < u.countP (isUserTurnBoundary env) := by
      rw [hitems, List.countP_append] at hmore
      omega
    subst hcount
    rw [dropLastNUserTurns_cut env hb hu history hitems, hitems, dropLastMarked_cut hb rfl hu]

/-- **Rolling back is additive.** Rolling back `n` turns and then `m` leaves what rolling back
`n + m` turns leaves; and no rollback touches what stands before the first instruction turn, so none
touches what precedes the context items directly before it. -/
theorem dropLastNUserTurns_add (history : ContextManager Value Ctx Snapshot) (n m : ℕ) :
    ((history.dropLastNUserTurns env n).dropLastNUserTurns env m).items =
        (history.dropLastNUserTurns env (n + m)).items ∧
      history.items.takeWhile (!isUserTurnBoundary env ·) <+:
        (history.dropLastNUserTurns env n).items ∧
      (history.items.takeWhile (!isUserTurnBoundary env ·)).rdropWhile
          (isPreTurnContextUpdate env) <+: (history.dropLastNUserTurns env n).items := by
  have hdisjoint : ∀ item : ResponseItem Value, isPreTurnContextUpdate env item = true →
      isUserTurnBoundary env item = false := isPreTurnContextUpdate_not_boundary env
  have hpreamble : history.items.takeWhile (!isUserTurnBoundary env ·) <+:
      (history.dropLastNUserTurns env n).items := by
    rw [items_dropLastNUserTurns]
    exact takeWhile_prefix_dropLastMarked hdisjoint n history.items
  refine ⟨?_, hpreamble, (List.rdropWhile_prefix _ _).trans hpreamble⟩
  rw [items_dropLastNUserTurns, items_dropLastNUserTurns, items_dropLastNUserTurns]
  exact dropLastMarked_add hdisjoint n m history.items

end ContextManager

end Codex
