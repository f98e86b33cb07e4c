import Codex.Session.RolloutReconstruction

/-!
# User messages and fork turns of a rollout

`core/src/thread_rollout_truncation.rs`: where the user messages of a rollout stand and where its
fork turns do, both after the rollback markers. The scan for fork turns keeps a second list, of all
instruction turns, and lets a rollback take turns off that list; the scan for user messages takes as
many user messages as the marker has turns.

* `filter_rdrop_eq_iff`: taking off the last elements commutes with filtering when those all pass,
  or no other does;
* `forkPositions_agree_iff`: exactly when the two scans find the same user messages.
-/

namespace Codex.Session

open Codex.Lib Codex.Protocol Codex.Context Codex.ContextManager

variable {Value : Type}

/-- What the scans call besides the history: the flag `trigger_turn` of an
`InterAgentCommunication` that a text parses as. -/
structure ForkEnv extends ContextEnv where
  triggersTurn : Text → Bool

/-! ### The boundaries -/

variable (env : ContextEnv)

/-- `is_real_user_message_boundary`, by `event_mapping::parse_turn_item` -/
def isRealUserMessageBoundary : ResponseItem Value → Bool
  | .message _ role content _ _ =>
    role == "user".toList && !isVisibleHookPromptMessage env content &&
      !isContextualUserMessageContent env content
  | _ => false

def isTriggerTurnBoundary (env : ForkEnv) : ResponseItem Value → Bool
  | .message _ role content _ _ =>
    role == "assistant".toList &&
      match content with
      | [.inputText text] | [.outputText text] =>
        env.parsesAsInterAgentCommunication text && env.triggersTurn text
      | _ => false
  | _ => false

/-- `matches!(item, ResponseItem::AgentMessage { .. })` -/
def isAgentMessage : ResponseItem Value → Bool
  | .agentMessage _ _ _ _ _ => true
  | _ => false

/-- `matches!(items.get(..), Some(InterAgentCommunicationMetadata { .. }))` -/
def isDeliveryMetadata : Option (RolloutItem Value) → Bool
  | some (.interAgentCommunicationMetadata _) => true
  | _ => false

/-! ### The scans -/

/-- The body of the loop of `user_message_positions_in_rollout` -/
def userMessageStep (userPositions : List ℕ) (idx : ℕ) :
    RolloutItem Value → List ℕ
  | .responseItem item =>
    if isRealUserMessageBoundary env item then userPositions ++ [idx] else userPositions
  | .eventMsg (.threadRolledBack numTurns) =>
    userPositions.take (userPositions.length - numTurns)
  | _ => userPositions

variable (items : List (RolloutItem Value))

def userMessagePositionsInRollout : List ℕ :=
  items.zipIdx.foldl (fun userPositions item => userMessageStep env userPositions item.2 item.1) []

/-- The two lists of `fork_turn_positions_in_rollout` -/
structure ForkScan where
  rollbackTurnPositions : List ℕ := []
  forkTurnPositions : List ℕ := []

def rollbackStartIdx (rollbackTurnPositions : List ℕ) (numTurns : ℕ) : Option ℕ :=
  if numTurns ≤ rollbackTurnPositions.length then
    rollbackTurnPositions[rollbackTurnPositions.length - numTurns]?
  else rollbackTurnPositions.head?

/-- The body of the loop of `fork_turn_positions_in_rollout`; `previous` is the item before
this one -/
def forkTurnStep (env : ForkEnv) (previous : Option (RolloutItem Value)) (scan : ForkScan)
    (idx : ℕ) : RolloutItem Value → ForkScan
  | .responseItem item =>
    let hasDeliveryMetadata := isAgentMessage item && isDeliveryMetadata previous
    { rollbackTurnPositions :=
        if isUserTurnBoundary env.toContextEnv item && !hasDeliveryMetadata then
          scan.rollbackTurnPositions ++ [idx]
        else scan.rollbackTurnPositions
      forkTurnPositions :=
        if isRealUserMessageBoundary env.toContextEnv item || isTriggerTurnBoundary env item then
          scan.forkTurnPositions ++ [idx]
        else scan.forkTurnPositions }
  | .interAgentCommunication communication =>
    { rollbackTurnPositions := scan.rollbackTurnPositions ++ [idx]
      forkTurnPositions :=
        if communication.triggerTurn then scan.forkTurnPositions ++ [idx]
        else scan.forkTurnPositions }
  | .interAgentCommunicationMetadata triggerTurn =>
    { rollbackTurnPositions := scan.rollbackTurnPositions ++ [idx]
      forkTurnPositions :=
        if triggerTurn then scan.forkTurnPositions ++ [idx] else scan.forkTurnPositions }
  | .eventMsg (.threadRolledBack numTurns) =>
    if numTurns = 0 then scan
    else
      match rollbackStartIdx scan.rollbackTurnPositions numTurns with
      | none => scan
      | some rollbackStart =>
        { rollbackTurnPositions :=
            scan.rollbackTurnPositions.take (scan.rollbackTurnPositions.length - numTurns)
          forkTurnPositions := scan.forkTurnPositions.filter (· < rollbackStart) }
  | _ => scan

/-- `idx.checked_sub(1)` and `items.get(previous_idx)` -/
def previousItem : ℕ → Option (RolloutItem Value)
  | 0 => none
  | idx + 1 => items[idx]?

/-- The loop of `fork_turn_positions_in_rollout` -/
def forkTurnScan (env : ForkEnv) (items : List (RolloutItem Value)) : ForkScan :=
  items.zipIdx.foldl
    (fun scan item => forkTurnStep env (previousItem items item.2) scan item.2 item.1) {}

def forkTurnPositionsInRollout (env : ForkEnv) (items : List (RolloutItem Value)) : List ℕ :=
  (forkTurnScan env items).forkTurnPositions

/-- A real user message stands at the position. -/
def isRealUserMessageAt (idx : ℕ) : Bool :=
  match items[idx]? with
  | some (.responseItem item) => isRealUserMessageBoundary env item
  | _ => false

/-! ### Taking off the last elements -/

section lists

variable {l : List ℕ} {n : ℕ} {p : ℕ → Bool}

/-- The last `n` elements that pass are those that pass among the last `n` exactly when all of these
pass, or nothing else does. -/
theorem filter_rdrop_eq_iff (p : ℕ → Bool) (n : ℕ) (l : List ℕ) :
    (l.filter p).take ((l.filter p).length - n) = (l.take (l.length - n)).filter p ↔
      (∀ i ∈ l.drop (l.length - n), p i = true) ∨ ∀ i ∈ l.take (l.length - n), p i = false := by
  have hlast : (l.drop (l.length - n)).length ≤ n := by
    rw [List.length_drop]
    omega
  have hsplit : l.filter p =
      (l.take (l.length - n)).filter p ++ (l.drop (l.length - n)).filter p := by
    rw [← List.filter_append, List.take_append_drop]
  have hfew : n ≤ l.length → (l.drop (l.length - n)).length = n := by
    intro hn
    rw [List.length_drop]
    omega
  have hnone : ¬ n ≤ l.length → l.take (l.length - n) = [] := by
    intro hn
    rw [Nat.sub_eq_zero_of_le (by omega), List.take_zero]
  generalize l.take (l.length - n) = first at hsplit hnone ⊢
  generalize l.drop (l.length - n) = last at hlast hsplit hfew ⊢
  have hle := List.length_filter_le p last
  rw [hsplit, List.length_append]
  constructor
  · intro heq
    have hlength := congrArg List.length heq
    rw [List.length_take, List.length_append] at hlength
    by_cases hempty : (first.filter p).length = 0
    · refine .inr fun i hi => ?_
      have hnil := List.filter_eq_nil_iff.mp (List.eq_nil_of_length_eq_zero hempty) i hi
      simpa using hnil
    · -- as many elements were taken off as there are in `last`
      have hall : (last.filter p).length = last.length := by omega
      exact .inl (List.filter_eq_self.mp (List.filter_sublist.eq_of_length hall))
  · rintro (hall | hnot)
    · rw [List.filter_eq_self.mpr hall]
      by_cases hn : n ≤ l.length
      · rw [hfew hn, Nat.add_sub_cancel, List.take_left]
      · rw [hnone hn, List.filter_nil, List.nil_append, List.length_nil,
          Nat.zero_add, Nat.sub_eq_zero_of_le hlast, List.take_zero]
    · have hnil : first.filter p = [] := List.filter_eq_nil_iff.mpr fun i hi => by simp [hnot i hi]
      rw [hnil, List.length_nil, Nat.zero_add, Nat.sub_eq_zero_of_le (hle.trans hlast),
        List.take_zero]

lemma exists_of_rollbackStartIdx {start : ℕ} (h : rollbackStartIdx l n = some start) :
    ∃ rest, l = l.take (l.length - n) ++ start :: rest := by
  unfold rollbackStartIdx at h
  by_cases hn : n ≤ l.length
  · rw [if_pos hn] at h
    obtain ⟨hlt, hget⟩ := List.getElem?_eq_some_iff.mp h
    refine ⟨l.drop (l.length - n + 1), ?_⟩
    rw [← hget, ← List.drop_eq_getElem_cons hlt, List.take_append_drop]
  · rw [if_neg hn] at h
    obtain ⟨rest, hl⟩ := List.head?_eq_some_iff.mp h
    refine ⟨rest, ?_⟩
    rw [Nat.sub_eq_zero_of_le (by omega), List.take_zero, List.nil_append]
    exact hl

/-- In an ascending list the elements before the cut are those below it. -/
theorem filter_lt_rollbackStart {start : ℕ} (hsorted : l.Pairwise (· < ·))
    (h : rollbackStartIdx l n = some start) :
    l.filter (· < start) = l.take (l.length - n) := by
  obtain ⟨rest, hl⟩ := exists_of_rollbackStartIdx h
  rw [hl] at hsorted
  obtain ⟨-, hrest, hbelow⟩ := List.pairwise_append.mp hsorted
  have hfirst : (l.take (l.length - n)).filter (· < start) = l.take (l.length - n) := by
    refine List.filter_eq_self.mpr fun i hi => decide_eq_true ?_
    exact hbelow i hi start List.mem_cons_self
  have hlast : (start :: rest).filter (· < start) = [] := by
    refine List.filter_eq_nil_iff.mpr fun i hi hlt => ?_
    have hlt := of_decide_eq_true hlt
    rcases List.mem_cons.mp hi with rfl | hi
    · exact absurd hlt (by omega)
    · have := (List.pairwise_cons.mp hrest).1 i hi
      omega
  nth_rewrite 1 [hl]
  rw [List.filter_append, hfirst, hlast, List.append_nil]

lemma rollbackStartIdx_eq_none_iff (hpos : 0 < n) : rollbackStartIdx l n = none ↔ l = [] := by
  unfold rollbackStartIdx
  constructor
  · intro h
    split at h
    · have := List.getElem?_eq_none_iff.mp h
      exact List.eq_nil_of_length_eq_zero (by omega)
    · exact List.head?_eq_none_iff.mp h
  · rintro rfl
    split <;> rfl

end lists

/-! ### The scans item by item -/

variable {env : ForkEnv} {items : List (RolloutItem Value)} {x : RolloutItem Value}

lemma isRealUserMessageAt_append {idx : ℕ} (h : idx < items.length)
    (rest : List (RolloutItem Value)) :
    isRealUserMessageAt env.toContextEnv (items ++ rest) idx =
      isRealUserMessageAt env.toContextEnv items idx := by
  unfold isRealUserMessageAt
  rw [List.getElem?_append_left h]

variable (items)

lemma isRealUserMessageAt_length (item : ResponseItem Value) :
    isRealUserMessageAt env.toContextEnv (items ++ [.responseItem item]) items.length =
      isRealUserMessageBoundary env.toContextEnv item := by
  unfold isRealUserMessageAt
  rw [List.getElem?_append_right le_rfl, Nat.sub_self, List.getElem?_cons_zero]

lemma isRealUserMessageAt_length_of_ne (hx : ∀ item, x ≠ .responseItem item) :
    isRealUserMessageAt env.toContextEnv (items ++ [x]) items.length = false := by
  unfold isRealUserMessageAt
  rw [List.getElem?_append_right le_rfl, Nat.sub_self, List.getElem?_cons_zero]
  split
  · rename_i item heq
    exact absurd (Option.some.inj heq) (hx item)
  · rfl

variable {items}

lemma userMessagePositionsInRollout_concat (env : ContextEnv) (items : List (RolloutItem Value))
    (x : RolloutItem Value) :
    userMessagePositionsInRollout env (items ++ [x]) =
      userMessageStep env (userMessagePositionsInRollout env items) items.length x := by
  unfold userMessagePositionsInRollout
  rw [List.zipIdx_append, List.foldl_append]
  simp

lemma forkTurnScan_concat (env : ForkEnv) (items : List (RolloutItem Value))
    (x : RolloutItem Value) :
    forkTurnScan env (items ++ [x]) =
      forkTurnStep env (previousItem (items ++ [x]) items.length) (forkTurnScan env items)
        items.length x := by
  -- the items before `x` see the same items before them
  have hsame : ∀ scan, ∀ item ∈ items.zipIdx,
      forkTurnStep env (previousItem (items ++ [x]) item.2) scan item.2 item.1 =
        forkTurnStep env (previousItem items item.2) scan item.2 item.1 := by
    intro scan item hitem
    have hlt : item.2 < items.length := by
      have := List.snd_lt_of_mem_zipIdx hitem
      omega
    have hprevious : previousItem (items ++ [x]) item.2 = previousItem items item.2 := by
      cases hidx : item.2 with
      | zero => rfl
      | succ idx => exact List.getElem?_append_left (by omega)
    rw [hprevious]
  unfold forkTurnScan
  rw [List.zipIdx_append, List.foldl_append, List.foldl_ext _ _ _ hsame]
  simp

lemma isUserTurnBoundary_of_real {item : ResponseItem Value}
    (h : isRealUserMessageBoundary env.toContextEnv item = true) :
    isUserTurnBoundary env.toContextEnv item = true ∧ isAgentMessage item = false := by
  cases item with
  | message id role content phase metadata =>
    simp only [isRealUserMessageBoundary, Bool.and_eq_true] at h
    obtain ⟨⟨hrole, -⟩, hcontent⟩ := h
    refine ⟨?_, rfl⟩
    simp only [isUserTurnBoundary]
    rw [hrole, hcontent]
    rfl
  | _ => exact absurd h (by simp [isRealUserMessageBoundary])

/-! ### What the fork scan tracks -/

/-- The turns stand in ascending order among the items scanned, and the user messages among them are
those among the fork turns. -/
structure ForkScan.Tracks (env : ContextEnv) (items : List (RolloutItem Value)) (scan : ForkScan) :
    Prop where
  sorted : scan.rollbackTurnPositions.Pairwise (· < ·)
  rollbackBelow : ∀ idx ∈ scan.rollbackTurnPositions, idx < items.length
  forkBelow : ∀ idx ∈ scan.forkTurnPositions, idx < items.length
  users : scan.forkTurnPositions.filter (isRealUserMessageAt env items) =
    scan.rollbackTurnPositions.filter (isRealUserMessageAt env items)

/-- Both scans' lists, filtered, are those of the items scanned before. -/
theorem filter_isRealUserMessageAt_concat {positions : List ℕ}
    (h : ∀ idx ∈ positions, idx < items.length) (x : RolloutItem Value) :
    positions.filter (isRealUserMessageAt env.toContextEnv (items ++ [x])) =
      positions.filter (isRealUserMessageAt env.toContextEnv items) :=
  List.filter_congr fun idx hidx => isRealUserMessageAt_append (h idx hidx) [x]

variable {scan : ForkScan}

/-- A new item is a turn, a fork turn, both or neither; a user message is both. -/
theorem ForkScan.Tracks.push (h : scan.Tracks env.toContextEnv items)
    (x : RolloutItem Value) (isTurn isFork : Bool)
    (hreal : isRealUserMessageAt env.toContextEnv (items ++ [x]) items.length = true →
      isTurn = true ∧ isFork = true) :
    ForkScan.Tracks env.toContextEnv (items ++ [x])
      { rollbackTurnPositions :=
          if isTurn then scan.rollbackTurnPositions ++ [items.length]
          else scan.rollbackTurnPositions
        forkTurnPositions :=
          if isFork then scan.forkTurnPositions ++ [items.length]
          else scan.forkTurnPositions } := by
  have hbelow : ∀ (isMember : Bool) (positions : List ℕ), (∀ idx ∈ positions, idx < items.length) →
      ∀ idx ∈ (if isMember then positions ++ [items.length] else positions),
        idx < (items ++ [x]).length := by
    intro isMember positions hpositions idx hidx
    rw [List.length_append, List.length_singleton]
    cases isMember with
    | false => exact Nat.lt_succ_of_lt (hpositions idx hidx)
    | true =>
      rcases List.mem_append.mp hidx with hidx | hidx
      · exact Nat.lt_succ_of_lt (hpositions idx hidx)
      · rw [List.mem_singleton.mp hidx]
        exact Nat.lt_succ_self _
  have hfilter : ∀ (isMember : Bool) (positions : List ℕ),
      (∀ idx ∈ positions, idx < items.length) →
      (isRealUserMessageAt env.toContextEnv (items ++ [x]) items.length = true → isMember = true) →
      (if isMember then positions ++ [items.length] else positions).filter
          (isRealUserMessageAt env.toContextEnv (items ++ [x])) =
        positions.filter (isRealUserMessageAt env.toContextEnv items) ++
          if isRealUserMessageAt env.toContextEnv (items ++ [x]) items.length then [items.length]
          else [] := by
    intro isMember positions hpositions hmember
    cases isMember with
    | true =>
      rw [if_pos rfl, List.filter_append, filter_isRealUserMessageAt_concat hpositions,
        List.filter_cons, List.filter_nil]
    | false =>
      have hnot : isRealUserMessageAt env.toContextEnv (items ++ [x]) items.length = false := by
        by_contra hne
        cases hmember (by simpa using hne)
      rw [hnot, if_neg Bool.false_ne_true, if_neg Bool.false_ne_true, List.append_nil,
        filter_isRealUserMessageAt_concat hpositions]
  refine ⟨?_, hbelow isTurn _ h.rollbackBelow, hbelow isFork _ h.forkBelow, ?_⟩
  · cases isTurn with
    | false => exact h.sorted
    | true =>
      refine List.pairwise_append.mpr ⟨h.sorted, List.pairwise_singleton _ _, ?_⟩
      intro idx hidx last hlast
      rw [List.mem_singleton.mp hlast]
      exact h.rollbackBelow idx hidx
  · simp only
    rw [hfilter isTurn _ h.rollbackBelow fun hat => (hreal hat).1,
      hfilter isFork _ h.forkBelow fun hat => (hreal hat).2, h.users]

/-- A rollback takes the same user messages off both lists. -/
theorem ForkScan.Tracks.rollBack (h : scan.Tracks env.toContextEnv items)
    (x : RolloutItem Value) {n start : ℕ}
    (hstart : rollbackStartIdx scan.rollbackTurnPositions n = some start) :
    ForkScan.Tracks env.toContextEnv (items ++ [x])
      { rollbackTurnPositions :=
          scan.rollbackTurnPositions.take (scan.rollbackTurnPositions.length - n)
        forkTurnPositions := scan.forkTurnPositions.filter (· < start) } := by
  have hrollback : ∀ idx ∈ scan.rollbackTurnPositions.take (scan.rollbackTurnPositions.length - n),
      idx < items.length := fun idx hidx => h.rollbackBelow idx (List.mem_of_mem_take hidx)
  have hfork : ∀ idx ∈ scan.forkTurnPositions.filter (· < start), idx < items.length :=
    fun idx hidx => h.forkBelow idx (List.mem_filter.mp hidx).1
  have hlength : items.length < (items ++ [x]).length := by simp
  refine ⟨h.sorted.sublist (List.take_sublist _ _),
    fun idx hidx => (hrollback idx hidx).trans hlength,
    fun idx hidx => (hfork idx hidx).trans hlength, ?_⟩
  simp only
  rw [filter_isRealUserMessageAt_concat hfork, filter_isRealUserMessageAt_concat hrollback,
    List.filter_comm, h.users, List.filter_comm, filter_lt_rollbackStart h.sorted hstart]

lemma ForkScan.Tracks.skip (h : scan.Tracks env.toContextEnv items)
    (hx : ∀ item, x ≠ .responseItem item) :
    scan.Tracks env.toContextEnv (items ++ [x]) := by
  have hpush := h.push x false false fun hat => by
    simp [isRealUserMessageAt_length_of_ne items hx] at hat
  exact hpush

/-- **One item.** -/
theorem ForkScan.Tracks.step (h : scan.Tracks env.toContextEnv items)
    (previous : Option (RolloutItem Value)) (x : RolloutItem Value) :
    (forkTurnStep env previous scan items.length x).Tracks env.toContextEnv (items ++ [x]) := by
  have hother : (∀ item, x ≠ .responseItem item) → ∀ isTurn isFork : Bool,
      isRealUserMessageAt env.toContextEnv (items ++ [x]) items.length = true →
        isTurn = true ∧ isFork = true := by
    intro hx isTurn isFork hat
    simp [isRealUserMessageAt_length_of_ne items hx] at hat
  cases x with
  | responseItem item =>
    refine h.push _ _ _ fun hat => ?_
    rw [isRealUserMessageAt_length] at hat
    obtain ⟨hturn, hagent⟩ := isUserTurnBoundary_of_real hat
    simp [hturn, hagent, hat]
  | interAgentCommunication communication =>
    exact h.push _ true communication.triggerTurn (hother (by simp) _ _)
  | interAgentCommunicationMetadata triggerTurn =>
    exact h.push _ true triggerTurn (hother (by simp) _ _)
  | eventMsg event =>
    cases event with
    | threadRolledBack n =>
      simp only [forkTurnStep]
      by_cases hn : n = 0
      · rw [if_pos hn]
        exact h.skip (by simp)
      · rw [if_neg hn]
        cases hstart : rollbackStartIdx scan.rollbackTurnPositions n with
        | none => exact h.skip (by simp)
        | some start => exact h.rollBack _ hstart
    | _ => exact h.skip (by simp)
  | _ => exact h.skip (by simp)

variable (env)

/-- **The whole scan.** -/
theorem forkTurnScan_tracks (items : List (RolloutItem Value)) :
    (forkTurnScan env items).Tracks env.toContextEnv items := by
  induction items using List.reverseRecOn with
  | nil => exact ⟨.nil, by simp [forkTurnScan], by simp [forkTurnScan], rfl⟩
  | append_singleton items x ih =>
    rw [forkTurnScan_concat]
    exact ih.step _ x

/-! ### When the scans agree -/

/-- The user messages found are those among the fork turns. -/
def ForkPositionsAgree (items : List (RolloutItem Value)) : Prop :=
  userMessagePositionsInRollout env.toContextEnv items =
    (forkTurnPositionsInRollout env items).filter (isRealUserMessageAt env.toContextEnv items)

/-- A rollback marker of `n` turns behind `items` takes back user messages only, or no user message
stands before the turns it takes back. -/
def RollbackTakesUserMessages (items : List (RolloutItem Value)) (n : ℕ) : Prop :=
  let turns := (forkTurnScan env items).rollbackTurnPositions
  (∀ idx ∈ turns.drop (turns.length - n), isRealUserMessageAt env.toContextEnv items idx = true) ∨
    ∀ idx ∈ turns.take (turns.length - n), isRealUserMessageAt env.toContextEnv items idx = false

variable {env}

lemma forkPositionsAgree_iff_turns :
    ForkPositionsAgree env items ↔ userMessagePositionsInRollout env.toContextEnv items =
      (forkTurnScan env items).rollbackTurnPositions.filter
        (isRealUserMessageAt env.toContextEnv items) := by
  unfold ForkPositionsAgree forkTurnPositionsInRollout
  rw [(forkTurnScan_tracks env items).users]

lemma rollbackTurnPositions_rollBack (env : ForkEnv) (items : List (RolloutItem Value)) (n : ℕ) :
    (forkTurnScan env (items ++ [.eventMsg (.threadRolledBack n)])).rollbackTurnPositions =
      (forkTurnScan env items).rollbackTurnPositions.take
        ((forkTurnScan env items).rollbackTurnPositions.length - n) := by
  rw [forkTurnScan_concat]
  simp only [forkTurnStep]
  by_cases hn : n = 0
  · rw [if_pos hn, hn, Nat.sub_zero, List.take_length]
  · rw [if_neg hn]
    cases hstart : rollbackStartIdx (forkTurnScan env items).rollbackTurnPositions n with
    | none =>
      rw [(rollbackStartIdx_eq_none_iff (Nat.pos_of_ne_zero hn)).mp hstart]
      simp only [List.take_nil]
    | some start => rfl

/-- **At a rollback marker** scans that agreed still do exactly when the marker takes back user
messages. -/
theorem forkPositionsAgree_rollBack_iff (h : ForkPositionsAgree env items) (n : ℕ) :
    ForkPositionsAgree env (items ++ [.eventMsg (.threadRolledBack n)]) ↔
      RollbackTakesUserMessages env items n := by
  have hbelow : ∀ idx ∈ (forkTurnScan env items).rollbackTurnPositions.take
      ((forkTurnScan env items).rollbackTurnPositions.length - n), idx < items.length :=
    fun idx hidx => (forkTurnScan_tracks env items).rollbackBelow idx (List.mem_of_mem_take hidx)
  rw [forkPositionsAgree_iff_turns] at h ⊢
  rw [userMessagePositionsInRollout_concat, userMessageStep, h, rollbackTurnPositions_rollBack,
    filter_isRealUserMessageAt_concat hbelow]
  exact filter_rdrop_eq_iff _ n _

lemma forkPositionsAgree_concat (h : ForkPositionsAgree env items)
    (hx : ∀ n, x ≠ .eventMsg (.threadRolledBack n)) : ForkPositionsAgree env (items ++ [x]) := by
  have hbelow := (forkTurnScan_tracks env items).rollbackBelow
  have hother : (∀ item, x ≠ .responseItem item) →
      isRealUserMessageAt env.toContextEnv (items ++ [x]) items.length = false :=
    isRealUserMessageAt_length_of_ne items
  -- an item that is no user message is filtered out again where it is a turn
  have hnone : isRealUserMessageAt env.toContextEnv (items ++ [x]) items.length = false →
      (([items.length] : List ℕ).filter (isRealUserMessageAt env.toContextEnv (items ++ [x]))) =
        [] :=
    fun hat => by rw [List.filter_cons, hat, if_neg Bool.false_ne_true, List.filter_nil]
  rw [forkPositionsAgree_iff_turns] at h ⊢
  rw [userMessagePositionsInRollout_concat, forkTurnScan_concat, h]
  cases x with
  | responseItem item =>
    simp only [userMessageStep, forkTurnStep]
    by_cases hreal : isRealUserMessageBoundary env.toContextEnv item = true
    · obtain ⟨hturn, hagent⟩ := isUserTurnBoundary_of_real hreal
      rw [if_pos hreal, if_pos (by simp [hturn, hagent]), List.filter_append,
        filter_isRealUserMessageAt_concat hbelow, List.filter_cons, isRealUserMessageAt_length,
        if_pos hreal, List.filter_nil]
    · have hat : isRealUserMessageAt env.toContextEnv (items ++ [.responseItem item]) items.length =
          isRealUserMessageBoundary env.toContextEnv item := isRealUserMessageAt_length items item
      rw [Bool.not_eq_true] at hreal
      rw [hreal] at hat
      rw [hreal, if_neg Bool.false_ne_true]
      split
      · rw [List.filter_append, filter_isRealUserMessageAt_concat hbelow, hnone hat,
          List.append_nil]
      · rw [filter_isRealUserMessageAt_concat hbelow]
  | interAgentCommunication communication =>
    simp only [userMessageStep, forkTurnStep]
    rw [List.filter_append, filter_isRealUserMessageAt_concat hbelow, hnone (hother (by simp)),
      List.append_nil]
  | interAgentCommunicationMetadata triggerTurn =>
    simp only [userMessageStep, forkTurnStep]
    rw [List.filter_append, filter_isRealUserMessageAt_concat hbelow, hnone (hother (by simp)),
      List.append_nil]
  | eventMsg event =>
    cases event with
    | threadRolledBack n => exact absurd rfl (hx n)
    | _ => exact (filter_isRealUserMessageAt_concat hbelow _).symm
  | _ => exact (filter_isRealUserMessageAt_concat hbelow _).symm

/-- **Where fork turns and user messages agree.** The scans find the same user messages at every
point of a rollout exactly when every rollback marker in it takes back user messages only, or has no
user message before the turns it takes back. -/
theorem forkPositions_agree_iff (env : ForkEnv) (items : List (RolloutItem Value)) :
    (∀ before, before <+: items → ForkPositionsAgree env before) ↔
      ∀ before n, before ++ [.eventMsg (.threadRolledBack n)] <+: items →
        RollbackTakesUserMessages env before n := by
  constructor
  · intro h before n hbefore
    have hagree := h before ((List.prefix_append _ _).trans hbefore)
    exact (forkPositionsAgree_rollBack_iff hagree n).mp (h _ hbefore)
  · intro h before hbefore
    induction before using List.reverseRecOn with
    | nil => rfl
    | append_singleton before x ih =>
      have hagree := ih ((List.prefix_append _ _).trans hbefore)
      by_cases hx : ∃ n, x = .eventMsg (.threadRolledBack n)
      · obtain ⟨n, rfl⟩ := hx
        exact (forkPositionsAgree_rollBack_iff hagree n).mpr (h before n hbefore)
      · exact forkPositionsAgree_concat hagree fun n heq => hx ⟨n, heq⟩

/-- An environment in which no text is a hook prompt or a communication. -/
def plainForkEnv : ForkEnv where
  hookPromptRunId := fun _ => none
  parsesAsInterAgentCommunication := fun _ => false
  truncateText := fun text _ => text
  truncateFunctionOutputPayload := fun output => output
  triggersTurn := fun _ => false

/-- A user message, a turn that another agent started, and a rollback of that turn. -/
def rolledBackAgentTurn : List (RolloutItem Unit) :=
  [.responseItem (.message none "user".toList [.inputText "hello".toList] none none),
    .interAgentCommunication
      { id := none, author := [], recipient := [], content := [], encryptedContent := none,
        metadata := none, triggerTurn := true },
    .eventMsg (.threadRolledBack 1)]

/-- The user message stays a fork turn but is no longer among the user messages. -/
theorem rolledBackAgentTurn_drops_userMessage :
    forkTurnPositionsInRollout plainForkEnv rolledBackAgentTurn = [0] ∧
      userMessagePositionsInRollout plainForkEnv.toContextEnv rolledBackAgentTurn = [] ∧
      ¬ ForkPositionsAgree plainForkEnv rolledBackAgentTurn := by
  have hfork : forkTurnPositionsInRollout plainForkEnv rolledBackAgentTurn = [0] := by
    decide +kernel
  have huser :
      userMessagePositionsInRollout plainForkEnv.toContextEnv rolledBackAgentTurn = [] := by
    decide +kernel
  refine ⟨hfork, huser, ?_⟩
  unfold ForkPositionsAgree
  rw [hfork, huser]
  decide +kernel

end Codex.Session
