import Codex.ContextManager.Compact
import Codex.Lib.Utf8

/-!
# Truncating a text to a token budget

`utils/string/src/truncate.rs`, and `truncate_text` of `utils/output-truncation/src/lib.rs`: the
middle of a text that is too long gives way to a marker, so that the beginning and the end stay, cut
between characters. Sizes count bytes of UTF-8; the saturation of `usize` is left out, as no text is
that long.

* `truncateMiddleChars_spec`: the marker counts what is cut out;
* `truncateText_spec`: a text that costs too much keeps a beginning and an end within the budget.
-/

namespace Codex.ContextManager

open Codex.Lib Codex.Context
open String (utf8Len)

def approxBytesPerToken : ℕ := 4

def approxBytesForTokens (tokens : ℕ) : ℕ := tokens * approxBytesPerToken

def approxTokensFromByteCount (bytes : ℕ) : ℕ :=
  (bytes + (approxBytesPerToken - 1)) / approxBytesPerToken

/-- The variables of the loop of `split_string` -/
structure SplitCursor where
  prefixEnd : ℕ
  suffixStart : ℕ
  removedChars : ℕ
  suffixStarted : Bool

/-- The body of the loop of `split_string` -/
def SplitCursor.advance (beginningBytes tailStartTarget : ℕ) (cursor : SplitCursor) :
    ℕ × Char → SplitCursor
  | (idx, ch) =>
    let charEnd := idx + ch.utf8Size
    if charEnd ≤ beginningBytes then { cursor with prefixEnd := charEnd }
    else if tailStartTarget ≤ idx then
      if cursor.suffixStarted then cursor
      else { cursor with suffixStart := idx, suffixStarted := true }
    else { cursor with removedChars := cursor.removedChars + 1 }

variable (s : Text)

def splitString (beginningBytes endBytes : ℕ) : ℕ × Text × Text :=
  if s.isEmpty then (0, [], [])
  else
    let len := utf8Len s
    let tailStartTarget := len - endBytes
    let cursor := (charIndices 0 s).foldl (SplitCursor.advance beginningBytes tailStartTarget)
      ⟨0, len, 0, false⟩
    let suffixStart :=
      if cursor.suffixStart < cursor.prefixEnd then cursor.prefixEnd else cursor.suffixStart
    (cursor.removedChars, takeBytes cursor.prefixEnd s, dropBytes suffixStart s)

def splitBudget (budget : ℕ) : ℕ × ℕ := (budget / 2, budget - budget / 2)

def formatTruncationMarker (useTokens : Bool) (removedCount : ℕ) : Text :=
  if useTokens then "…".toList ++ Nat.toDigits 10 removedCount ++ " tokens truncated…".toList
  else "…".toList ++ Nat.toDigits 10 removedCount ++ " chars truncated…".toList

def removedUnits (useTokens : Bool) (removedBytes removedChars : ℕ) : ℕ :=
  if useTokens then approxTokensFromByteCount removedBytes else removedChars

def assembleTruncatedOutput (before after marker : Text) : Text := before ++ marker ++ after

def truncateWithByteEstimate (maxBytes : ℕ) (useTokens : Bool) : Text :=
  if s.isEmpty then []
  else if maxBytes = 0 then
    formatTruncationMarker useTokens (removedUnits useTokens (utf8Len s) s.length)
  else if utf8Len s ≤ maxBytes then s
  else
    let (leftBudget, rightBudget) := splitBudget maxBytes
    let (removedChars, left, right) := splitString s leftBudget rightBudget
    let marker := formatTruncationMarker useTokens
      (removedUnits useTokens (utf8Len s - maxBytes) removedChars)
    assembleTruncatedOutput left right marker

def truncateMiddleChars (maxBytes : ℕ) : Text := truncateWithByteEstimate s maxBytes false

def truncateMiddleWithTokenBudget (maxTokens : ℕ) : Text × Option ℕ :=
  if s.isEmpty then ([], none)
  else if 0 < maxTokens ∧ utf8Len s ≤ approxBytesForTokens maxTokens then (s, none)
  else
    let truncated := truncateWithByteEstimate s (approxBytesForTokens maxTokens) true
    if truncated = s then (truncated, none) else (truncated, some (approxTokenCount s))

inductive TruncationPolicy where
  | bytes (bytes : ℕ)
  | tokens (tokens : ℕ)

def truncateText (content : Text) : TruncationPolicy → Text
  | .bytes bytes => truncateMiddleChars content bytes
  | .tokens tokens => (truncateMiddleWithTokenBudget content tokens).1

/-- The environment with the truncation of this module. -/
def withTruncateText (env : ContextEnv) : ContextEnv :=
  { env with truncateText := fun text tokens => truncateText text (.tokens tokens) }

/-! ### Splitting -/

/-- A beginning and an end of a text, each the longest within its number of bytes, and what is
between them. -/
structure LongestEnds (s left removed right : Text) (beginningBytes endBytes : ℕ) : Prop where
  split : s = left ++ removed ++ right
  left_le : utf8Len left ≤ beginningBytes
  left_longest : ∀ t, t <+: s → utf8Len t ≤ beginningBytes → t <+: left
  right_le : utf8Len right ≤ endBytes
  right_longest : ∀ t, t <:+ s → utf8Len t ≤ endBytes → t <:+ right

section split

variable {s left removed right : Text} {beginningBytes endBytes tailStartTarget offset : ℕ}
  {cursor : SplitCursor}

lemma utf8Len_pos_of_ne {t : Text} (h : t ≠ []) : 0 < utf8Len t := by
  cases t with
  | nil => exact absurd rfl h
  | cons ch t => exact Nat.add_pos_right _ ch.utf8Size_pos

/-- A beginning and an end that are together shorter than the text do not overlap. -/
lemma exists_between (hleft : left <+: s) (hright : right <:+ s)
    (h : utf8Len left + utf8Len right ≤ utf8Len s) : ∃ removed, s = left ++ removed ++ right := by
  obtain ⟨after, rfl⟩ := hleft
  obtain ⟨before, hsplit⟩ := hright
  rcases List.append_eq_append_iff.mp hsplit with ⟨common, rfl, rfl⟩ | ⟨removed, rfl, rfl⟩
  · have hcommon : common = [] := by
      by_contra hne
      have := utf8Len_pos_of_ne hne
      simp only [String.utf8Len_append] at h
      omega
    exact ⟨[], by simp [hcommon]⟩
  · exact ⟨removed, (List.append_assoc ..).symm⟩

lemma exists_longestEnds (h : beginningBytes + endBytes ≤ utf8Len s) :
    ∃ left removed right, LongestEnds s left removed right beginningBytes endBytes := by
  have hright : (takeBytes endBytes s.reverse).reverse <:+ s := by
    rw [← List.reverse_prefix, List.reverse_reverse]
    exact takeBytes_prefix_self ..
  have hleftLe := utf8Len_takeBytes_le beginningBytes s
  have hrightLe := utf8Len_takeBytes_le endBytes s.reverse
  obtain ⟨removed, hsplit⟩ := exists_between (takeBytes_prefix_self beginningBytes s) hright (by
    rw [String.utf8Len_reverse]
    omega)
  refine ⟨_, removed, _, hsplit, hleftLe, fun t => prefix_takeBytes, ?_, fun t ht hlen => ?_⟩
  · rwa [String.utf8Len_reverse]
  · rw [← List.reverse_prefix, List.reverse_reverse]
    exact prefix_takeBytes (List.reverse_prefix.mpr ht) (by rwa [String.utf8Len_reverse])

variable (h : LongestEnds s left removed right beginningBytes endBytes)
include h

/-- A character after the beginning ends beyond its bytes. -/
lemma LongestEnds.lt_of_after
    {before after : Text} {ch : Char} (hch : removed ++ right = before ++ ch :: after) :
    beginningBytes < utf8Len left + utf8Len before + ch.utf8Size := by
  by_contra hle
  have hlen : utf8Len (left ++ before ++ [ch]) = utf8Len left + utf8Len before + ch.utf8Size := by
    simp [Nat.add_assoc]
  have hs : s = left ++ before ++ [ch] ++ after := by
    rw [h.split, List.append_assoc, hch]
    simp
  obtain ⟨rest, hrest⟩ := h.left_longest (left ++ before ++ [ch]) ⟨after, hs.symm⟩ (by omega)
  have htotal := congrArg utf8Len hrest
  have := ch.utf8Size_pos
  rw [String.utf8Len_append, hlen] at htotal
  omega

/-- A character before the end starts too early for it. -/
lemma LongestEnds.lt_of_before
    {before after : Text} {ch : Char} (hch : removed = before ++ ch :: after) :
    endBytes < ch.utf8Size + utf8Len after + utf8Len right := by
  by_contra hle
  have hlen : utf8Len (ch :: after ++ right) = ch.utf8Size + utf8Len after + utf8Len right := by
    rw [String.utf8Len_append, String.utf8Len_cons]
    omega
  have hs : s = left ++ before ++ (ch :: after ++ right) := by
    rw [h.split, hch]
    simp
  obtain ⟨rest, hrest⟩ := h.right_longest (ch :: after ++ right) ⟨_, hs.symm⟩ (by omega)
  have htotal := congrArg utf8Len hrest
  have := ch.utf8Size_pos
  rw [String.utf8Len_append, hlen] at htotal
  omega

omit h

lemma foldl_advance_left (h : cursor.prefixEnd + utf8Len left ≤ beginningBytes) :
    (charIndices cursor.prefixEnd left).foldl (SplitCursor.advance beginningBytes tailStartTarget)
      cursor = { cursor with prefixEnd := cursor.prefixEnd + utf8Len left } := by
  induction left generalizing cursor with
  | nil => rfl
  | cons ch left ih =>
    rw [String.utf8Len_cons] at h ⊢
    have hadvance : cursor.advance beginningBytes tailStartTarget (cursor.prefixEnd, ch) =
        { cursor with prefixEnd := cursor.prefixEnd + ch.utf8Size } :=
      if_pos (show cursor.prefixEnd + ch.utf8Size ≤ beginningBytes by omega)
    rw [charIndices, List.foldl_cons, hadvance]
    refine (@ih { cursor with prefixEnd := _ } (by dsimp only; omega)).trans ?_
    simp only [Nat.add_assoc, Nat.add_comm ch.utf8Size]

lemma foldl_advance_removed (h : ∀ idx ch, (idx, ch) ∈ charIndices offset removed →
      beginningBytes < idx + ch.utf8Size ∧ idx < tailStartTarget) :
    (charIndices offset removed).foldl (SplitCursor.advance beginningBytes tailStartTarget) cursor =
      { cursor with removedChars := cursor.removedChars + removed.length } := by
  induction removed generalizing offset cursor with
  | nil => rfl
  | cons ch removed ih =>
    obtain ⟨hlt, htarget⟩ := h offset ch List.mem_cons_self
    have hadvance : cursor.advance beginningBytes tailStartTarget (offset, ch) =
        { cursor with removedChars := cursor.removedChars + 1 } := by
      rw [SplitCursor.advance, if_neg (not_le.mpr hlt), if_neg (not_le.mpr htarget)]
    rw [charIndices, List.foldl_cons, hadvance,
      ih fun idx ch hmem => h idx ch (List.mem_cons_of_mem _ hmem)]
    simp only [List.length_cons, Nat.add_assoc, Nat.add_comm 1]

/-- Once the tail has started, only a character before it changes the cursor. -/
lemma foldl_advance_right (h : ∀ idx ch, (idx, ch) ∈ charIndices offset right →
      beginningBytes < idx + ch.utf8Size ∧ tailStartTarget ≤ idx)
    (hstarted : cursor.suffixStarted = true) :
    (charIndices offset right).foldl (SplitCursor.advance beginningBytes tailStartTarget) cursor =
      cursor := by
  induction right generalizing offset with
  | nil => rfl
  | cons ch right ih =>
    obtain ⟨hlt, htarget⟩ := h offset ch List.mem_cons_self
    rw [charIndices, List.foldl_cons, SplitCursor.advance, if_neg (not_le.mpr hlt),
      if_pos htarget, if_pos hstarted]
    exact ih fun idx ch hmem => h idx ch (List.mem_cons_of_mem _ hmem)

lemma charIndices_append (offset : ℕ) (a b : Text) :
    charIndices offset (a ++ b) = charIndices offset a ++ charIndices (offset + utf8Len a) b := by
  induction a generalizing offset with
  | nil => rfl
  | cons ch a ih =>
    rw [List.cons_append, charIndices, ih, charIndices, List.cons_append, String.utf8Len_cons,
      Nat.add_assoc, Nat.add_comm ch.utf8Size]

/-- The loop of `split_string` finds the longest beginning and end, and counts what is between. -/
theorem splitString_eq (h : LongestEnds s left removed right beginningBytes endBytes) :
    splitString s beginningBytes endBytes = (removed.length, left, right) := by
  by_cases hempty : s = []
  · have hsplit := h.split
    rw [hempty, eq_comm, List.append_eq_nil_iff, List.append_eq_nil_iff] at hsplit
    obtain ⟨⟨rfl, rfl⟩, rfl⟩ := hsplit
    rw [splitString, hempty]
    rfl
  have hlen : utf8Len s = utf8Len left + utf8Len removed + utf8Len right := by
    rw [h.split, String.utf8Len_append, String.utf8Len_append]
  have hafter : ∀ idx ch, (idx, ch) ∈ charIndices (utf8Len left) (removed ++ right) →
      beginningBytes < idx + ch.utf8Size := by
    intro idx ch hmem
    obtain ⟨_, ⟨before, after, hch, rfl⟩, rfl⟩ := exists_of_mem_charIndices hmem
    exact h.lt_of_after hch
  rw [charIndices_append] at hafter
  have hremoved : ∀ idx ch, (idx, ch) ∈ charIndices (utf8Len left) removed →
      beginningBytes < idx + ch.utf8Size ∧ idx < utf8Len s - endBytes := by
    intro idx ch hmem
    refine ⟨hafter idx ch (List.mem_append_left _ hmem), ?_⟩
    obtain ⟨_, ⟨before, after, hch, rfl⟩, rfl⟩ := exists_of_mem_charIndices hmem
    have hbefore := h.lt_of_before hch
    have := congrArg utf8Len hch
    simp only [String.utf8Len_append, String.utf8Len_cons] at this
    omega
  have hright : ∀ idx ch, (idx, ch) ∈ charIndices (utf8Len left + utf8Len removed) right →
      beginningBytes < idx + ch.utf8Size ∧ utf8Len s - endBytes ≤ idx := by
    intro idx ch hmem
    refine ⟨hafter idx ch (List.mem_append_right _ hmem), ?_⟩
    obtain ⟨_, -, rfl⟩ := exists_of_mem_charIndices hmem
    have := h.right_le
    omega
  obtain ⟨started, hcursor⟩ : ∃ started, (charIndices 0 s).foldl
      (SplitCursor.advance beginningBytes (utf8Len s - endBytes)) ⟨0, utf8Len s, 0, false⟩ =
      ⟨utf8Len left, utf8Len left + utf8Len removed, removed.length, started⟩ := by
    have hleft := @foldl_advance_left left beginningBytes (utf8Len s - endBytes)
      ⟨0, utf8Len s, 0, false⟩ (by rw [Nat.zero_add]; exact h.left_le)
    dsimp only at hleft
    have hindices : charIndices 0 s = charIndices 0 left ++ charIndices (utf8Len left) removed ++
        charIndices (utf8Len left + utf8Len removed) right := by
      rw [h.split, charIndices_append, charIndices_append, String.utf8Len_append, Nat.zero_add,
        Nat.zero_add]
    rw [hindices, List.foldl_append, List.foldl_append, hleft, foldl_advance_removed hremoved,
      Nat.zero_add, Nat.zero_add]
    cases right with
    | nil => exact ⟨false, by rw [hlen]; rfl⟩
    | cons ch right =>
      obtain ⟨hlt, htarget⟩ := hright _ ch List.mem_cons_self
      refine ⟨true, ?_⟩
      rw [charIndices, List.foldl_cons, SplitCursor.advance, if_neg (not_le.mpr hlt),
        if_pos htarget, if_neg Bool.false_ne_true]
      exact foldl_advance_right (fun idx ch hmem => hright idx ch (List.mem_cons_of_mem _ hmem)) rfl
  rw [splitString, if_neg (by rwa [List.isEmpty_iff])]
  dsimp only
  rw [hcursor]
  dsimp only
  rw [if_neg (Nat.not_lt.mpr (Nat.le_add_right _ _)), ← String.utf8Len_append, h.split,
    dropBytes_utf8Len_append, List.append_assoc, takeBytes_utf8Len_append]

end split

/-! ### Truncating -/

/-- **Truncation loses only what it reports**: a text over its budget keeps the longest beginning
and the longest end within the halves of the budget, and the marker counts the characters
between. -/
theorem truncateMiddleChars_spec (s : Text) (maxBytes : ℕ) :
    if utf8Len s ≤ maxBytes then truncateMiddleChars s maxBytes = s
    else ∃ before removed after,
      LongestEnds s before removed after (maxBytes / 2) (maxBytes - maxBytes / 2) ∧
      truncateMiddleChars s maxBytes =
        before ++ formatTruncationMarker false removed.length ++ after := by
  split_ifs with hfits
  · rw [truncateMiddleChars, truncateWithByteEstimate]
    split_ifs with hempty hzero
    · exact (List.isEmpty_iff.mp hempty).symm
    · rw [hzero, Nat.le_zero] at hfits
      exact absurd (utf8Len_pos_of_ne (fun h => hempty (List.isEmpty_iff.mpr h))) (by omega)
    · rfl
  · have hempty : s.isEmpty = false := by
      cases s with
      | nil => exact absurd (Nat.zero_le _) hfits
      | cons => rfl
    obtain ⟨before, removed, after, hends⟩ :=
      exists_longestEnds (show maxBytes / 2 + (maxBytes - maxBytes / 2) ≤ utf8Len s by omega)
    refine ⟨before, removed, after, hends, ?_⟩
    rw [truncateMiddleChars, truncateWithByteEstimate, hempty, if_neg Bool.false_ne_true]
    by_cases hzero : maxBytes = 0
    · obtain ⟨hsplit, hleft, -, hright, -⟩ := hends
      subst hzero
      obtain rfl : before = [] := by
        by_contra hne
        exact absurd (utf8Len_pos_of_ne hne) (by omega)
      obtain rfl : after = [] := by
        by_contra hne
        exact absurd (utf8Len_pos_of_ne hne) (by omega)
      rw [if_pos rfl, List.nil_append, List.append_nil]
      rw [List.nil_append, List.append_nil] at hsplit
      rw [hsplit]
      rfl
    · rw [if_neg hzero, if_neg hfits]
      dsimp only [splitBudget]
      rw [splitString_eq hends]
      rfl

lemma approxTokenCount_eq (text : Text) : approxTokenCount text = (utf8Len text + 3) / 4 := by
  have hsum : (text.map Char.utf8Size).sum = utf8Len text := by
    induction text with
    | nil => rfl
    | cons ch text ih => rw [List.map_cons, List.sum_cons, ih, String.utf8Len_cons, Nat.add_comm]
  rw [approxTokenCount, hsum]

/-- What truncation keeps of a text: a beginning and an end, within the budget and using it up but
for one token. -/
structure Kept (text : Text) (tokens : ℕ) (left right : Text) : Prop where
  cut : ∃ removed, text = left ++ removed ++ right
  fits : approxTokenCount (left ++ right) ≤ tokens
  uses : tokens ≤ approxTokenCount (left ++ right) + 1

/-- The budgets are used but for what would split a character. -/
lemma LongestEnds.uses {s left removed right : Text} {beginningBytes endBytes : ℕ}
    (h : LongestEnds s left removed right beginningBytes endBytes)
    (hlt : beginningBytes + endBytes < utf8Len s) :
    beginningBytes + endBytes ≤ utf8Len left + utf8Len right + 6 := by
  have hremoved : removed ≠ [] := by
    rintro rfl
    have := h.left_le
    have := h.right_le
    rw [h.split, List.append_nil, String.utf8Len_append] at hlt
    omega
  obtain ⟨first, rest, hfirst⟩ := List.exists_cons_of_ne_nil hremoved
  obtain ⟨init, last, hlast⟩ := List.eq_nil_or_concat removed |>.resolve_left hremoved
  have hleft := @LongestEnds.lt_of_after _ _ _ _ _ _ h []
    (rest ++ right) first (by rw [hfirst]; rfl)
  have hright := @LongestEnds.lt_of_before _ _ _ _ _ _ h init [] last
    (hlast.trans List.concat_eq_append)
  have := first.utf8Size_le_four
  have := last.utf8Size_le_four
  simp only [String.utf8Len_nil] at hleft hright
  omega

/-- **A text that costs too much keeps a beginning and an end within the budget.** -/
theorem truncateText_spec {text : Text} {tokens : ℕ} (hpos : 0 < tokens)
    (hlarge : tokens < approxTokenCount text) :
    ∃ left right removedCount, truncateText text (.tokens tokens) =
        left ++ formatTruncationMarker true removedCount ++ right ∧
          Kept text tokens left right := by
  rw [approxTokenCount_eq] at hlarge
  have hbytes : tokens * 4 < utf8Len text := by omega
  have hnonempty : text.isEmpty = false := by
    cases text with
    | nil => exact absurd hbytes (Nat.not_lt_zero _)
    | cons => rfl
  have hbudget : (splitBudget (tokens * 4)).1 + (splitBudget (tokens * 4)).2 < utf8Len text := by
    simp only [splitBudget]
    omega
  obtain ⟨left, removed, right, hends⟩ := exists_longestEnds hbudget.le
  have htruncated : truncateText text (.tokens tokens) =
      truncateWithByteEstimate text (tokens * 4) true := by
    have hfits : ¬(0 < tokens ∧ utf8Len text ≤ approxBytesForTokens tokens) :=
      fun h => absurd h.2 (not_le.mpr hbytes)
    rw [truncateText, truncateMiddleWithTokenBudget, hnonempty, if_neg Bool.false_ne_true,
      if_neg hfits]
    dsimp only [approxBytesForTokens, approxBytesPerToken]
    split_ifs <;> rfl
  have hestimate : truncateWithByteEstimate text (tokens * 4) true =
      left ++ formatTruncationMarker true
        (removedUnits true (utf8Len text - tokens * 4) removed.length) ++ right := by
    rw [truncateWithByteEstimate, hnonempty, if_neg Bool.false_ne_true, if_neg (by omega),
      if_neg (not_le.mpr hbytes)]
    dsimp only
    rw [splitString_eq hends]
    rfl
  have hleft := hends.left_le
  have hright := hends.right_le
  have huses := hends.uses hbudget
  refine ⟨left, right, _, htruncated.trans hestimate, ⟨removed, hends.split⟩, ?_, ?_⟩
  · rw [approxTokenCount_eq, String.utf8Len_append]
    simp only [splitBudget] at hleft hright
    omega
  · rw [approxTokenCount_eq, String.utf8Len_append]
    simp only [splitBudget] at huses
    omega

end Codex.ContextManager
