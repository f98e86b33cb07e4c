import Codex.Tui.Movement

/-!
# Vim text objects

The ranges that `iw`, `a(`, `i"` and the other text objects select: words, the innermost pair of
brackets around the cursor, and quotes on the cursor's line. Brackets and quotes inside elements
do not count; an edit of the range expands it to whole elements.
-/

namespace Codex.Tui

open Codex.Lib
open String (utf8Len)

inductive VimTextObject where
  | word
  | bigWord
  | parentheses
  | brackets
  | braces
  | doubleQuote
  | singleQuote
  | backtick
deriving DecidableEq

namespace TextArea

variable (env : TextEnv) (s : TextArea)

/-! ### Words -/

/-- The loop of `non_ws_runs`, with the start of the run it is in. -/
def nonWsRunsFrom (len : ℕ) : Option ℕ → List (ℕ × Char) → List Range
  | some runStart, [] => [⟨runStart, len⟩]
  | none, [] => []
  | some runStart, (idx, ch) :: chars =>
    if isWhitespace ch then ⟨runStart, idx⟩ :: nonWsRunsFrom len none chars
    else nonWsRunsFrom len (some runStart) chars
  | none, (idx, ch) :: chars =>
    if isWhitespace ch then nonWsRunsFrom len none chars
    else nonWsRunsFrom len (some idx) chars

def nonWsRuns : List Range := nonWsRunsFrom (utf8Len s.text) none (charIndices 0 s.text)

def cursorOverlapsRange (range : Range) : Bool :=
  decide (range.start ≤ s.cursorPos ∧ s.cursorPos < range.stop)

/-- `cursor_is_entryrange_end`. -/
def cursorIsAtRangeEnd (range : Range) : Bool :=
  decide (range.start < range.stop ∧ s.cursorPos = range.stop)

/-- The run that the cursor is in or right after. -/
def runAtCursor : Option Range :=
  s.nonWsRuns.find? fun range => s.cursorOverlapsRange range || s.cursorIsAtRangeEnd range

/-- `big_word_range_entrycursor`. -/
def bigWordRangeAtCursor : Option Range := s.runAtCursor

/-- The pieces of a run as ranges of the text. -/
def pieceRanges (run : Range) : List Range :=
  (splitWordPieces env (slice s.text run.start run.stop)).map fun piece =>
    ⟨run.start + piece.1, run.start + piece.1 + utf8Len piece.2⟩

/-- `small_word_range_entrycursor`. -/
def smallWordRangeAtCursor : Option Range :=
  s.runAtCursor.map fun run =>
    match (s.pieceRanges env run).find? s.cursorOverlapsRange with
    | some piece => piece
    | none =>
      if s.cursorIsAtRangeEnd run then (s.pieceRanges env run).getLast?.getD run else run

def followingWhitespaceEnd (start : ℕ) : ℕ :=
  start + utf8Len ((dropBytes start s.text).takeWhile isWhitespace)

def precedingWhitespaceStart (stop : ℕ) : ℕ := utf8Len (trimEnd (takeBytes stop s.text))

def expandWordAround (inner : Range) : Range :=
  let following := s.followingWhitespaceEnd inner.stop
  if inner.stop < following then ⟨inner.start, following⟩
  else ⟨s.precedingWhitespaceStart inner.start, inner.stop⟩

variable (scope : VimTextObjectScope)

def wordTextObjectRange (bigWord : Bool) : Option Range :=
  (if bigWord then s.bigWordRangeAtCursor else s.smallWordRangeAtCursor env).map fun inner =>
    match scope with
    | .inner => inner
    | .around => s.expandWordAround inner

/-! ### Brackets and quotes -/

def isInsideElement (pos : ℕ) : Bool :=
  s.elements.any fun e => decide (e.range.start ≤ pos ∧ pos < e.range.stop)

def isEscaped (pos : ℕ) : Bool :=
  ((takeBytes pos s.text).reverse.takeWhile (· == '\\')).length % 2 == 1

/-- The shorter one of the best range so far and the one between two delimiters, if the cursor is
between them. -/
def betterRange (openChar closeChar : Char) (openIdx idx : ℕ)
    (best : Option Range) : Option Range :=
  if openIdx ≤ s.cursorPos ∧ s.cursorPos ≤ idx then
    let candidate : Range :=
      match scope with
      | .inner => ⟨openIdx + openChar.utf8Size, idx⟩
      | .around => ⟨openIdx, idx + closeChar.utf8Size⟩
    if candidate.start ≤ candidate.stop ∧ best.all fun current =>
          decide (candidate.stop - candidate.start < current.stop - current.start) then
      some candidate
    else best
  else best

/-- One character of the loop of `paired_text_object_range`: the open brackets and the best
range. -/
def pairedStep (openChar closeChar : Char)
    (state : List ℕ × Option Range) (entry : ℕ × Char) : List ℕ × Option Range :=
  if s.isInsideElement entry.1 then state
  else if entry.2 = openChar then (entry.1 :: state.1, state.2)
  else if entry.2 = closeChar then
    match state.1 with
    | [] => state
    | openIdx :: stack =>
      (stack, s.betterRange scope openChar closeChar openIdx entry.1 state.2)
  else state

def pairedTextObjectRange (openChar closeChar : Char) : Option Range :=
  ((charIndices 0 s.text).foldl (s.pairedStep scope openChar closeChar) ([], none)).2

/-- One character of the loop of `quoted_text_object_range`: the open quote and the best range. -/
def quotedStep (quote : Char)
    (state : Option ℕ × Option Range) (entry : ℕ × Char) : Option ℕ × Option Range :=
  if s.isInsideElement entry.1 ∨ entry.2 ≠ quote ∨ s.isEscaped entry.1 then state
  else
    match state.1 with
    | some openIdx => (none, s.betterRange scope quote quote openIdx entry.1 state.2)
    | none => (some entry.1, state.2)

def quotedTextObjectRange (quote : Char) : Option Range :=
  let bol := s.beginningOfCurrentLine
  let eol := s.endOfCurrentLine
  ((charIndices bol (slice s.text bol eol)).foldl (s.quotedStep scope quote) (none, none)).2

def textObjectRange (object : VimTextObject) (scope : VimTextObjectScope) : Option Range :=
  match object with
  | .word => s.wordTextObjectRange env scope false
  | .bigWord => s.wordTextObjectRange env scope true
  | .parentheses => s.pairedTextObjectRange scope '(' ')'
  | .brackets => s.pairedTextObjectRange scope '[' ']'
  | .braces => s.pairedTextObjectRange scope '\x7b' '\x7d'
  | .doubleQuote => s.quotedTextObjectRange scope '\x22'
  | .singleQuote => s.quotedTextObjectRange scope '\x27'
  | .backtick => s.quotedTextObjectRange scope '\x60'

end TextArea

end Codex.Tui
