import Codex.ContextManager.TruncateText

/-!
# Compacting a compacted history

What `build_compacted_history_with_limit` of `core/src/compact.rs` keeps of the user messages, and
what `collect_user_messages` finds of it at the next compaction. A kept message is written as one
text, in which the texts of several content items are joined and a long one is cut, and is
classified anew.
-/

namespace Codex.ContextManager

open Codex.Lib Codex.Protocol Codex.Context

variable {Value : Type} {env : ContextEnv}

/-! ### The budget -/

/-- What messages cost. -/
def costOf (messages : List (CompactedUserMessage Value)) : ℕ :=
  (messages.map fun message => approxTokenCount message.message).sum

lemma costOf_cons (message : CompactedUserMessage Value)
    (messages : List (CompactedUserMessage Value)) :
    costOf (message :: messages) = approxTokenCount message.message + costOf messages := by
  rw [costOf, List.map_cons, List.sum_cons, costOf]

variable (messages : List (CompactedUserMessage Value))

lemma costOf_reverse : costOf messages.reverse = costOf messages := by
  rw [costOf, List.map_reverse, List.sum_reverse, costOf]

/-- The newest messages, in order, all but the oldest verbatim, where older ones are left out only
when the budget is used up. -/
inductive KeepsNewest (limit : ℕ) (messages : List (CompactedUserMessage Value)) :
    List (CompactedUserMessage Value) → Prop
  | verbatim {older kept : List (CompactedUserMessage Value)} (hmessages : messages = older ++ kept)
      (hcost : costOf kept ≤ limit) (hused : older = [] ∨ costOf kept = limit) :
      KeepsNewest limit messages kept
  | truncated {older newer : List (CompactedUserMessage Value)}
      {message : CompactedUserMessage Value}
      {left right : Text} {removedCount : ℕ} (hmessages : messages = older ++ message :: newer)
      (hcost : costOf newer < limit)
        (hlarge : limit < costOf newer + approxTokenCount message.message)
      (hkept : Kept message.message (limit - costOf newer) left right) :
      KeepsNewest limit messages
        ({ message with message := left ++ formatTruncationMarker true removedCount ++ right } ::
          newer)

lemma costOf_concat (message : CompactedUserMessage Value) :
    costOf (messages ++ [message]) = costOf messages + approxTokenCount message.message := by
  rw [costOf, List.map_append, List.sum_append, costOf, List.map_singleton, List.sum_singleton]

variable {message : CompactedUserMessage Value}

/-- A newer message that is kept verbatim leaves the rest of the budget to the older ones. -/
theorem KeepsNewest.concat {limit : ℕ} {messages kept : List (CompactedUserMessage Value)}

    (h : KeepsNewest (limit - approxTokenCount message.message) messages kept)
    (hfits : approxTokenCount message.message ≤ limit) :
    KeepsNewest limit (messages ++ [message]) (kept ++ [message]) := by
  cases h with
  | @verbatim older _ hmessages hcost hused =>
    have hconcat : messages ++ [message] = older ++ (kept ++ [message]) := by
      rw [hmessages, List.append_assoc]
    refine .verbatim hconcat ?_ ?_
    · rw [costOf_concat]
      omega
    · rw [costOf_concat]
      exact hused.imp_right fun hused => by omega
  | @truncated older newer cut left right removedCount hmessages hcost hlarge hkept =>
    have hrest : limit - approxTokenCount message.message - costOf newer =
        limit - costOf (newer ++ [message]) := by
      rw [costOf_concat]
      omega
    have hconcat : messages ++ [message] = older ++ cut :: (newer ++ [message]) := by
      rw [hmessages, List.append_assoc, List.cons_append]
    have hcost' : costOf (newer ++ [message]) < limit := by
      rw [costOf_concat]
      omega
    have hlarge' : limit < costOf (newer ++ [message]) + approxTokenCount cut.message := by
      rw [costOf_concat]
      omega
    exact .truncated hconcat hcost' hlarge' (hrest ▸ hkept)

/-- **The budget is spent on the newest messages.** -/
theorem selectMessages_spec (remaining : ℕ) :
    KeepsNewest remaining messages.reverse
      (selectMessages (withTruncateText env) messages remaining).reverse := by
  induction messages generalizing remaining with
  | nil => exact .verbatim rfl (Nat.zero_le _) (.inl rfl)
  | cons message messages ih =>
    rw [selectMessages, List.reverse_cons]
    split_ifs with hzero hfits
    · exact .verbatim (List.append_nil _).symm (Nat.zero_le _) (.inr hzero.symm)
    · rw [List.reverse_cons]
      exact (ih _).concat hfits
    · obtain ⟨left, right, removedCount, htruncated, hkept⟩ :=
        truncateText_spec (Nat.pos_of_ne_zero hzero) (not_le.mp hfits)
      have htext : (withTruncateText env).truncateText message.message remaining =
          left ++ formatTruncationMarker true removedCount ++ right := htruncated
      rw [htext]
      have hlast : messages.reverse ++ [message] = messages.reverse ++ message :: [] := rfl
      refine .truncated hlast (Nat.pos_of_ne_zero hzero) ?_ hkept
      rw [costOf, List.map_nil, List.sum_nil, Nat.zero_add]
      exact not_le.mp hfits

/-- What is written of a message with some budget left. -/
def written (env : ContextEnv) (remaining : ℕ) (text : Text) : Text :=
  if approxTokenCount text ≤ remaining then text else env.truncateText text remaining

/-- An element of a list comes first, or after the first. -/
theorem forall_split_cons {α : Type} {x : α} {xs : List α} {Q : List α → α → Prop} :
    (∀ before y after, x :: xs = before ++ y :: after → Q before y) ↔
      Q [] x ∧ ∀ before y after, xs = before ++ y :: after → Q (x :: before) y := by
  constructor
  · exact fun h => ⟨h [] x xs rfl, fun before y after hxs =>
      h (x :: before) y after (by rw [hxs, List.cons_append])⟩
  · rintro ⟨hfirst, hrest⟩ before y after h
    cases before with
    | nil =>
      obtain ⟨rfl, -⟩ := List.cons.inj h
      exact hfirst
    | cons first before =>
      obtain ⟨rfl, hxs⟩ := List.cons.inj h
      exact hrest before y after hxs

/-- The kept messages, by the budget that the newer ones leave. -/
theorem forall_mem_selectMessages {P : Text → Prop} {messages : List (CompactedUserMessage Value)}
    {remaining : ℕ} :
    (∀ message ∈ selectMessages env messages remaining, P message.message) ↔
      ∀ newer message older, messages = newer ++ message :: older → costOf newer < remaining →
        P (written env (remaining - costOf newer) message.message) := by
  induction messages generalizing remaining with
  | nil =>
    refine iff_of_true (fun _ h => absurd h List.not_mem_nil) fun newer message older h => ?_
    exact absurd h.symm (by simp)
  | cons message messages ih =>
    rw [forall_split_cons (Q := fun newer other => costOf newer < remaining →
      P (written env (remaining - costOf newer) other.message)), selectMessages]
    have hcons : ∀ newer : List (CompactedUserMessage Value),
        costOf (message :: newer) < remaining →
        approxTokenCount message.message < remaining := by
      intro newer h
      rw [costOf_cons] at h
      omega
    split_ifs with hzero hfits
    · refine iff_of_true (fun _ h => absurd h List.not_mem_nil) ⟨?_, ?_⟩
      · exact fun h => absurd h (by omega)
      · exact fun newer other older _ h => absurd h (by omega)
    · rw [List.forall_mem_cons, ih]
      have hwritten : written env (remaining - costOf ([] : List (CompactedUserMessage Value)))
          message.message = message.message := if_pos hfits
      have hpos : costOf ([] : List (CompactedUserMessage Value)) < remaining :=
        Nat.pos_of_ne_zero hzero
      rw [hwritten]
      refine and_congr ⟨fun h _ => h, fun h => h hpos⟩ ?_
      refine forall_congr' fun newer => forall_congr' fun other => forall_congr' fun older =>
        imp_congr_right fun _ => ?_
      rw [costOf_cons, Nat.sub_sub, Nat.lt_sub_iff_add_lt']
    · have hwritten : written env (remaining - costOf ([] : List (CompactedUserMessage Value)))
          message.message = env.truncateText message.message remaining := if_neg hfits
      have hpos : costOf ([] : List (CompactedUserMessage Value)) < remaining :=
        Nat.pos_of_ne_zero hzero
      rw [hwritten, List.forall_mem_singleton]
      refine ⟨fun h => ⟨fun _ => h, ?_⟩, fun h => h.1 hpos⟩
      exact fun newer other older _ h => absurd (hcons newer h).le hfits

/-! ### The next compaction -/

lemma collectUserMessages_append (items items' : List (ResponseItem Value)) :
    collectUserMessages env (items ++ items') =
      collectUserMessages env items ++ collectUserMessages env items' := List.filterMap_append

lemma collectUserMessages_singleton {item : ResponseItem Value} {text : Text}
    (hparsed : parseUserTurnMessage env item = some text)
    (hsummary : isSummaryMessage text = false) :
    collectUserMessages env [item] = [⟨text, messageMetadata? item⟩] := by
  simp [collectUserMessages, hparsed, hsummary]

/-- A single text is a user message unless it reads as context. -/
theorem parseUserTurnMessage_userInputMessage (text : Text) (metadata : Option Value) :
    parseUserTurnMessage env (userInputMessage text metadata) =
      if isContextualUserFragment env (.inputText text) then none else some text := by
  have htext : userMessageText none [.inputText text] = text := by
    simp [userMessageText, isInputImage?]
  cases hcontextual : isContextualUserFragment env (.inputText text) with
  | true => simp [userInputMessage, parseUserTurnMessage, isContextualUserMessageContent,
      hcontextual]
  | false =>
    simp [userInputMessage, parseUserTurnMessage, isContextualUserMessageContent,
      isVisibleHookPromptMessage, hcontextual, htext]

variable (kept : List (CompactedUserMessage Value))

/-- The items written for kept messages. -/
def keptItems : List (ResponseItem Value) :=
  kept.map fun message => userInputMessage message.message message.metadata

/-- **A kept message is found again unless it reads as context or a summary.** -/
theorem collectUserMessages_kept :
    collectUserMessages env (keptItems kept) = kept.filter fun message =>
      !isContextualUserFragment env (.inputText message.message) &&
        !isSummaryMessage message.message := by
  induction kept with
  | nil => rfl
  | cons message kept ih =>
    rw [keptItems, List.map_cons, ← List.singleton_append, collectUserMessages_append, ← keptItems,
      ih,
      collectUserMessages, List.filterMap_cons, parseUserTurnMessage_userInputMessage]
    cases hcontextual : isContextualUserFragment env (.inputText message.message) with
    | true => simp [hcontextual]
    | false =>
      cases hsummary : isSummaryMessage message.message with
      | true => simp [hcontextual, hsummary]
      | false => simp [hcontextual, hsummary, messageMetadata?, userInputMessage]

variable {summaryText : Text}

lemma collectUserMessages_summary (h : isSummaryMessage summaryText = true) :
    collectUserMessages env [(userInputMessage summaryText none : ResponseItem Value)] = [] := by
  have hkept : collectUserMessages env (keptItems [(⟨summaryText, none⟩ :
      CompactedUserMessage Value)]) = [] := by
    rw [collectUserMessages_kept, List.filter_singleton, h]
    simp
  exact hkept

variable {items : List (ResponseItem Value)}

lemma not_isSummary_of_mem
    (h : message ∈ collectUserMessages env items) : isSummaryMessage message.message = false := by
  obtain ⟨item, -, hitem⟩ := List.mem_filterMap.mp h
  cases hparsed : parseUserTurnMessage env item with
  | none =>
    simp [hparsed] at hitem
  | some text =>
    rw [hparsed] at hitem
    dsimp only at hitem
    split_ifs at hitem with hsummary
    rw [← Option.some.inj hitem]
    exact Bool.eq_false_iff.mpr hsummary

lemma notMem_toList {c : Char} {l : List Char} (h : c ∉ l) : c ∉ (String.ofList l).toList := by
  rwa [String.toList_ofList]

lemma notMem_summaryPrefix : '…' ∉ summaryPrefix ++ "\n".toList := by
  delta summaryPrefix
  iterate 4 rw [String.toList_append]
  iterate 5 refine List.not_mem_append ?_ (notMem_toList (by decide +kernel))
  exact notMem_toList (by decide +kernel)

/-- A text that is cut is no summary: the marker stands in no summary prefix. -/
theorem not_isSummary_truncated {left removed right : Text} (removedCount : ℕ)
    (h : isSummaryMessage (left ++ removed ++ right) = false) :
    isSummaryMessage (left ++ formatTruncationMarker true removedCount ++ right) = false := by
  rw [Bool.eq_false_iff] at h ⊢
  intro hsummary
  apply h
  have hmarker : formatTruncationMarker true removedCount =
      '…' :: (Nat.toDigits 10 removedCount ++ " tokens truncated…".toList) := rfl
  rw [isSummaryMessage, startsWith, List.isPrefixOf_iff_prefix] at hsummary ⊢
  rw [hmarker, List.append_assoc] at hsummary
  rw [List.append_assoc]
  by_cases hlength : (summaryPrefix ++ "\n".toList).length ≤ left.length
  · exact (List.prefix_of_prefix_length_le hsummary (List.prefix_append _ _) hlength).trans
      (List.prefix_append _ _)
  · have hlong : (left ++ ['…']).length ≤ (summaryPrefix ++ "\n".toList).length := by
      rw [List.length_append, List.length_singleton]
      omega
    have hcut : left ++ ['…'] <+: left ++ ('…' :: (Nat.toDigits 10 removedCount ++
        " tokens truncated…".toList) ++ right) := by
      rw [List.prefix_append_right_inj]
      exact ⟨_, rfl⟩
    have hbefore := List.prefix_of_prefix_length_le hcut hsummary hlong
    have hmem : '…' ∈ summaryPrefix ++ "\n".toList :=
      hbefore.subset (List.mem_append_right _ List.mem_cons_self)
    exact absurd hmem notMem_summaryPrefix

lemma isEmpty_of_isSummary (h : isSummaryMessage summaryText = true) :
    summaryText.isEmpty = false := by
  cases summaryText with
  | nil =>
    rw [isSummaryMessage, startsWith, List.isPrefixOf_iff_prefix, List.prefix_nil,
      List.append_eq_nil_iff] at h
    exact absurd h.2 (by decide)
  | cons => rfl

/-- What is kept is a message that was collected, or one that is cut. -/
theorem not_isSummary_of_keepsNewest {limit : ℕ} {kept : List (CompactedUserMessage Value)}
    (h : KeepsNewest limit (collectUserMessages env items) kept) :
    ∀ message ∈ kept, isSummaryMessage message.message = false := by
  cases h with
  | verbatim hmessages =>
    intro message hmessage
    exact not_isSummary_of_mem (hmessages ▸ List.mem_append_right _ hmessage)
  | @truncated older newer cut left right removedCount hmessages _ _ hkept =>
    rw [List.forall_mem_cons]
    constructor
    · obtain ⟨removed, htext⟩ := hkept.cut
      have hcollected : isSummaryMessage (left ++ removed ++ right) = false := by
        rw [← htext]
        exact not_isSummary_of_mem (hmessages ▸ List.mem_append_right _ List.mem_cons_self)
      exact not_isSummary_truncated removedCount hcollected
    · intro message hmessage
      exact not_isSummary_of_mem
        (hmessages ▸ List.mem_append_right _ (List.mem_cons_of_mem _ hmessage))

/-- No message with some budget left reads as context in the one text that is written of it. -/
def NothingReadsAsContext (env : ContextEnv) (limit : ℕ)
    (messages : List (CompactedUserMessage Value)) : Prop :=
  ∀ older message newer, messages = older ++ message :: newer → costOf newer < limit →
    isContextualUserFragment env (.inputText (written env (limit - costOf newer) message.message)) =
      false

lemma nothingReadsAsContext_iff {limit : ℕ} {messages : List (CompactedUserMessage Value)} :
    NothingReadsAsContext env limit messages ↔
      ∀ message ∈ (selectMessages env messages.reverse limit).reverse,
        isContextualUserFragment env (.inputText message.message) = false := by
  simp only [List.mem_reverse]
  rw [forall_mem_selectMessages
    (P := fun text => isContextualUserFragment env (.inputText text) = false)]
  constructor
  · intro h newer message older hmessages hcost
    have hreverse : messages = older.reverse ++ message :: newer.reverse := by
      rw [← List.reverse_reverse messages, hmessages]
      simp
    have hwritten := h older.reverse message newer.reverse hreverse (by rwa [costOf_reverse])
    rwa [costOf_reverse] at hwritten
  · intro h older message newer hmessages hcost
    have hreverse : messages.reverse = newer.reverse ++ message :: older.reverse := by
      rw [hmessages]
      simp
    have hwritten := h newer.reverse message older.reverse hreverse (by rwa [costOf_reverse])
    rwa [costOf_reverse] at hwritten

/-- **What a compaction keeps, and exactly when the next one finds all of it.** -/
theorem buildCompactedHistoryWithLimit_keeps_iff (env : ContextEnv)
    (history context : List (ResponseItem Value)) (summaryText : Text) (limit : ℕ) :
    ∃ kept, buildCompactedHistoryWithLimit (withTruncateText env) context
          (collectUserMessages (withTruncateText env) history) summaryText limit =
        context ++ keptItems kept ++
          [userInputMessage (if summaryText.isEmpty then "(no summary available)".toList
            else summaryText) none] ∧
      KeepsNewest limit (collectUserMessages (withTruncateText env) history) kept ∧
      (isSummaryMessage summaryText = true →
        collectUserMessages (withTruncateText env) context = [] →
          (collectUserMessages (withTruncateText env)
              (buildCompactedHistoryWithLimit (withTruncateText env) context
                (collectUserMessages (withTruncateText env) history) summaryText limit) = kept ↔
            NothingReadsAsContext (withTruncateText env) limit
              (collectUserMessages (withTruncateText env) history))) := by
  have hkeeps : KeepsNewest limit (collectUserMessages (withTruncateText env) history)
      (selectMessages (withTruncateText env)
        (collectUserMessages (withTruncateText env) history).reverse limit).reverse := by
    nth_rewrite 1 [← List.reverse_reverse (collectUserMessages (withTruncateText env) history)]
    exact selectMessages_spec _ limit
  have hselected : (if 0 < limit then (selectMessages (withTruncateText env)
      (collectUserMessages (withTruncateText env) history).reverse limit).reverse else []) =
      (selectMessages (withTruncateText env)
        (collectUserMessages (withTruncateText env) history).reverse limit).reverse := by
    split_ifs with hpos
    · rfl
    · obtain rfl := Nat.eq_zero_of_not_pos hpos
      cases (collectUserMessages (withTruncateText env) history).reverse <;> rfl
  refine ⟨_, by rw [buildCompactedHistoryWithLimit, hselected]; rfl, hkeeps, ?_⟩
  intro hsummary hcontext
  have hlast : collectUserMessages (withTruncateText env)
      [(userInputMessage (if summaryText.isEmpty then
      "(no summary available)".toList else summaryText) none : ResponseItem Value)] = [] := by
    rw [isEmpty_of_isSummary hsummary, if_neg Bool.false_ne_true]
    exact collectUserMessages_summary hsummary
  rw [buildCompactedHistoryWithLimit, hselected, ← keptItems, collectUserMessages_append,
    collectUserMessages_append, hcontext, hlast, List.append_nil, List.nil_append,
    collectUserMessages_kept, List.filter_eq_self, nothingReadsAsContext_iff]
  refine forall_congr' fun message => imp_congr_right fun hmessage => ?_
  rw [not_isSummary_of_keepsNewest hkeeps message hmessage]
  simp

lemma isSummaryMessage_append (rest : Text) :
    isSummaryMessage (summaryPrefix ++ "\n".toList ++ rest) = true := by
  rw [isSummaryMessage, startsWith, List.isPrefixOf_iff_prefix]
  exact List.prefix_append _ _

/-- A text without a line break is no summary. -/
lemma not_isSummary_of_notMem {text : Text} (h : '\n' ∉ text) : isSummaryMessage text = false := by
  rw [Bool.eq_false_iff, isSummaryMessage, startsWith, ne_eq, List.isPrefixOf_iff_prefix]
  exact fun hstarts => h (hstarts.subset (List.mem_append_right _ List.mem_cons_self))

/-- An environment in which no text is a hook prompt or a communication. -/
def untruncatedEnv : ContextEnv where
  hookPromptRunId _ := none
  parsesAsInterAgentCommunication _ := false
  truncateText text _ := text
  truncateFunctionOutputPayload output := output

/-- The same, with the truncation of the source. -/
def plainContextEnv : ContextEnv := withTruncateText untruncatedEnv

def hello : CompactedUserMessage Unit := ⟨"hello".toList, none⟩

/-- A message that does not read as context is found again after it was kept. -/
theorem buildCompactedHistoryWithLimit_keeps_hello :
    ∃ kept, KeepsNewest compactUserMessageMaxTokens [hello] kept ∧
      collectUserMessages plainContextEnv (buildCompactedHistoryWithLimit plainContextEnv []
        [hello] (summaryPrefix ++ "\n".toList ++ "Done.".toList) compactUserMessageMaxTokens) =
          kept := by
  have hcollected : collectUserMessages plainContextEnv
      [.message none "user".toList [.inputText "hello".toList] none (none : Option Unit)] =
        [hello] :=
    collectUserMessages_singleton (by decide +kernel) (not_isSummary_of_notMem (by decide +kernel))
  obtain ⟨kept, -, hkeeps, hiff⟩ := buildCompactedHistoryWithLimit_keeps_iff untruncatedEnv
    [.message none "user".toList [.inputText "hello".toList] none (none : Option Unit)] []
    (summaryPrefix ++ "\n".toList ++ "Done.".toList) compactUserMessageMaxTokens
  rw [← plainContextEnv, hcollected] at hkeeps hiff
  refine ⟨kept, hkeeps, (hiff (isSummaryMessage_append _) rfl).mpr ?_⟩
  intro older message newer hmessages _
  obtain ⟨rfl, hmessages⟩ | ⟨rest, -, habsurd⟩ := List.cons_eq_append_iff.mp hmessages
  · cases hmessages
    decide +kernel
  · exact absurd habsurd.symm (List.append_ne_nil_of_right_ne_nil _ (List.cons_ne_nil _ _))

/-- Two texts that read as context when they are joined. -/
def splitContext : CompactedUserMessage Unit :=
  ⟨"<environment_context></environment_context>".toList, none⟩

/-- A user message with these texts. -/
def splitContextHistory : List (ResponseItem Unit) :=
  [.message none "user".toList [.inputText "<environment_context>".toList,
    .inputText "</environment_context>".toList] none none]

lemma collectUserMessages_splitContextHistory :
    collectUserMessages plainContextEnv splitContextHistory = [splitContext] := by
  have hparsed : parseUserTurnMessage plainContextEnv (.message none "user".toList
      [.inputText "<environment_context>".toList, .inputText "</environment_context>".toList]
      none (none : Option Unit)) = some splitContext.message := by
    decide +kernel
  exact collectUserMessages_singleton hparsed (not_isSummary_of_notMem (by decide +kernel))

lemma buildCompactedHistory_splitContext (hsummary : isSummaryMessage summaryText = true) :
    buildCompactedHistory plainContextEnv [] [splitContext] summaryText =
        keptItems [splitContext] ++ [userInputMessage summaryText none] ∧
      collectUserMessages plainContextEnv
        (keptItems [splitContext] ++ [userInputMessage summaryText none]) = [] := by
  have hfits : approxTokenCount splitContext.message ≤ compactUserMessageMaxTokens := by
    decide +kernel
  have hcontextual : isContextualUserFragment plainContextEnv (.inputText splitContext.message) =
      true := by
    decide +kernel
  constructor
  · have hselected : selectMessages plainContextEnv [splitContext] compactUserMessageMaxTokens =
        [splitContext] := by
      rw [selectMessages, if_neg (by decide), if_pos hfits]
      rfl
    rw [buildCompactedHistory, buildCompactedHistoryWithLimit, if_pos (by decide),
      List.reverse_singleton, hselected, isEmpty_of_isSummary hsummary, if_neg Bool.false_ne_true]
    rfl
  · rw [collectUserMessages_append, collectUserMessages_summary hsummary, collectUserMessages_kept,
      List.filter_singleton, hcontextual]
    rfl

/-- The message is kept by one compaction, and lost by the next. -/
theorem splitContext_lost :
    collectUserMessages plainContextEnv splitContextHistory = [splitContext] ∧
      isSummaryMessage (summaryPrefix ++ "\n".toList ++ "Done.".toList) = true ∧
      buildCompactedHistory plainContextEnv []
          (collectUserMessages plainContextEnv splitContextHistory)
          (summaryPrefix ++ "\n".toList ++ "Done.".toList) =
        keptItems [splitContext] ++
          [userInputMessage (summaryPrefix ++ "\n".toList ++ "Done.".toList) none] ∧
      collectUserMessages plainContextEnv (buildCompactedHistory plainContextEnv []
          (collectUserMessages plainContextEnv splitContextHistory)
          (summaryPrefix ++ "\n".toList ++ "Done.".toList)) = [] := by
  have hsummary := isSummaryMessage_append "Done.".toList
  generalize summaryPrefix ++ "\n".toList ++ "Done.".toList = summaryText at hsummary ⊢
  obtain ⟨hcompacted, hlost⟩ := buildCompactedHistory_splitContext hsummary
  rw [collectUserMessages_splitContextHistory, hcompacted]
  exact ⟨rfl, hsummary, rfl, hlost⟩

end Codex.ContextManager
