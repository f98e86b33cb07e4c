import Codex.Tui.TextArea
import Mathlib.Data.List.SplitBy

/-!
# Lines, words and cursor movement

Where the lines and the words of the text start and end, and the movements of the cursor: by
grapheme, by line (wrapped lines where the text was drawn, else logical ones) and by word. The
preferred column is kept while the cursor goes up and down; a position that the elements cover is
rounded to one of their ends by the movements that set the cursor.
-/

namespace Codex.Tui

open Codex.Lib
open String (utf8Len)

/-! ### Words -/

def wordSeparators : Text := "`~!@#$%^&*()-=+[\x7b]\x7d\\|;:'\",.<>/?".toList

def isWordSeparator (c : Char) : Bool := wordSeparators.contains c

/-- The pieces of one segment of `split_word_pieces`: runs of separators or of other characters. -/
def segmentPieces (segment : Text) : List Text :=
  segment.splitBy fun a b => isWordSeparator a == isWordSeparator b

/-- The pieces with the offsets at which they start. -/
def withOffsets (offset : ℕ) : List Text → List (ℕ × Text)
  | [] => []
  | piece :: pieces => (offset, piece) :: withOffsets (offset + utf8Len piece) pieces

def splitWordPieces (env : TextEnv) (run : Text) : List (ℕ × Text) :=
  withOffsets 0 ((env.wordBounds run).flatMap segmentPieces)

/-- The pieces taken as long as they are separators: the last loop of
`beginning_of_previous_word` and of `end_of_next_word_from`. -/
def separatorPieces (pieces : List (ℕ × Text)) : List (ℕ × Text) :=
  pieces.takeWhile fun piece => piece.2.all isWordSeparator

/-- The start of the run of non-whitespace that reaches up to the offset. -/
def runStartBefore (text : Text) (offset : ℕ) : ℕ :=
  match rfindByte isWhitespace (takeBytes offset text) with
  | some (idx, ch) => idx + ch.utf8Size
  | none => 0

namespace TextArea

variable (env : TextEnv) (s : TextArea)

/-! ### Lines -/

def beginningOfLine (pos : ℕ) : ℕ :=
  match rfindByte (· == '\n') (takeBytes pos s.text) with
  | some (i, _) => i + 1
  | none => 0

def beginningOfCurrentLine : ℕ := s.beginningOfLine s.cursorPos

def endOfLine (pos : ℕ) : ℕ :=
  match findByte (· == '\n') (dropBytes pos s.text) with
  | some i => i + pos
  | none => utf8Len s.text

def endOfCurrentLine : ℕ := s.endOfLine s.cursorPos

def firstNonBlankOfCurrentLine : ℕ :=
  let bol := s.beginningOfCurrentLine
  let eol := s.endOfCurrentLine
  match findByte (fun c => !isWhitespace c) (slice s.text bol eol) with
  | some offset => bol + offset
  | none => eol

def currentLineRangeWithNewline : Range :=
  let bol := s.beginningOfCurrentLine
  let eol := s.endOfCurrentLine
  ⟨bol, if eol < utf8Len s.text then eol + 1 else eol⟩

def currentDisplayCol : ℕ := env.width (slice s.text s.beginningOfCurrentLine s.cursorPos)

/-! ### Word positions -/

def beginningOfPreviousWord : ℕ :=
  let before := takeBytes s.cursorPos s.text
  match rfindByte (fun c => !isWhitespace c) before with
  | none => 0
  | some (firstNonWsIdx, ch) =>
    let runStart := runStartBefore before firstNonWsIdx
    let runEnd := firstNonWsIdx + ch.utf8Size
    match (splitWordPieces env (slice before runStart runEnd)).reverse with
    | [] => runStart
    | (pieceStart, piece) :: pieces =>
      let start :=
        if piece.all isWordSeparator then
          match (separatorPieces pieces).getLast? with
          | some (idx, _) => runStart + idx
          | none => runStart + pieceStart
        else runStart + pieceStart
      s.adjustPosOutOfElements start true

def endOfNextWordFrom (cursorPos : ℕ) : ℕ :=
  let suffix := dropBytes cursorPos s.text
  match findByte (fun c => !isWhitespace c) suffix with
  | none => utf8Len s.text
  | some firstNonWs =>
    let run := dropBytes firstNonWs suffix
    let run := takeBytes ((findByte isWhitespace run).getD (utf8Len run)) run
    match splitWordPieces env run with
    | [] => cursorPos + firstNonWs
    | (start, piece) :: pieces =>
      let stop :=
        if piece.all isWordSeparator then
          match (separatorPieces pieces).getLast? with
          | some (idx, piece) => cursorPos + firstNonWs + idx + utf8Len piece
          | none => cursorPos + firstNonWs + start + utf8Len piece
        else cursorPos + firstNonWs + start + utf8Len piece
      s.adjustPosOutOfElements stop false

def endOfNextWord : ℕ := s.endOfNextWordFrom env s.cursorPos

def beginningOfNextWord : ℕ :=
  match findByte (fun c => !isWhitespace c) (dropBytes s.cursorPos s.text) with
  | none => utf8Len s.text
  | some firstNonWs =>
    let wordStart := s.cursorPos + firstNonWs
    if wordStart ≠ s.cursorPos then s.adjustPosOutOfElements wordStart true
    else
      let stop := s.endOfNextWord env
      if utf8Len s.text ≤ stop then utf8Len s.text
      else
        match findByte (fun c => !isWhitespace c) (dropBytes stop s.text) with
        | none => utf8Len s.text
        | some nextNonWs => s.adjustPosOutOfElements (stop + nextNonWs) true

def vimWordEndExclusive : ℕ :=
  let stop := s.endOfNextWord env
  let target := if s.cursorPos < stop then s.prevAtomicBoundary env stop else stop
  if target = s.cursorPos ∧ stop < utf8Len s.text then s.endOfNextWordFrom env stop else stop

def vimWordEndCursor : ℕ :=
  let stop := s.vimWordEndExclusive env
  if s.cursorPos < stop then s.prevAtomicBoundary env stop else stop

def vimLineEndCursor : ℕ :=
  let bol := s.beginningOfCurrentLine
  let eol := s.endOfCurrentLine
  if bol < eol then max (s.prevAtomicBoundary env eol) bol else eol

/-! ### Cursor movement -/

def moveCursorLeft : TextArea :=
  { s with cursorPos := s.prevAtomicBoundary env s.cursorPos, preferredCol := none }

def moveCursorRight : TextArea :=
  { s with cursorPos := s.nextAtomicBoundary env s.cursorPos, preferredCol := none }

/-- The loop of `move_to_display_col_on_line`: the offset of the grapheme that passes the column. -/
def displayColOffset (targetCol : ℕ) (offset widthSoFar : ℕ) : List Text → Option ℕ
  | [] => none
  | g :: gs =>
    if targetCol < widthSoFar + env.width g then some offset
    else displayColOffset targetCol (offset + utf8Len g) (widthSoFar + env.width g) gs

def moveToDisplayColOnLine (lineStart lineEnd targetCol : ℕ) : TextArea :=
  let line := env.graphemes (slice s.text lineStart lineEnd)
  let pos :=
    match displayColOffset env targetCol 0 0 line with
    | some i => lineStart + i
    | none => lineEnd
  { s with cursorPos := s.clampPosToNearestBoundary pos }

/-- `wrapped_line_index_by_start`. The starts of wrapped lines rise, so `partition_point`
counts those before the first start past the position. -/
def wrappedLineIndexByStart (lines : List (ℕ × ℕ)) (pos : ℕ) : Option ℕ :=
  let idx := (lines.takeWhile fun r => decide (r.1 ≤ pos)).length
  if idx = 0 then none else some (idx - 1)

/-- The wrapped lines, the one of the cursor and the column to keep, where the text was drawn. -/
def wrappedPosition : Option (List (ℕ × ℕ) × ℕ × ℕ) :=
  s.wrapCache.bind fun cache =>
    (wrappedLineIndexByStart cache.lines s.cursorPos).bind fun idx =>
      cache.lines[idx]?.map fun current =>
        (cache.lines, idx, s.preferredCol.getD (env.width (slice s.text current.1 s.cursorPos)))

/-- To the column of a line, which becomes the preferred one if there is none. -/
def moveKeepingCol (line : ℕ × ℕ) (targetCol : ℕ) : TextArea :=
  { s with preferredCol := some (s.preferredCol.getD targetCol) }.moveToDisplayColOnLine env
    line.1 line.2 targetCol

/-- The cursor at one end of the text. -/
def moveToEnd (pos : ℕ) : TextArea := { s with cursorPos := pos, preferredCol := none }

def moveCursorUp : TextArea :=
  match s.wrappedPosition env with
  | some (lines, idx, targetCol) =>
    match if 0 < idx then lines[idx - 1]? else none with
    | some previous => s.moveKeepingCol env (previous.1, previous.2 - 1) targetCol
    | none => s.moveToEnd 0
  | none =>
    match rfindByte (· == '\n') (takeBytes s.cursorPos s.text) with
    | some (prevNl, _) =>
      s.moveKeepingCol env (s.beginningOfLine prevNl, prevNl)
        (s.preferredCol.getD (s.currentDisplayCol env))
    | none => s.moveToEnd 0

def moveCursorDown : TextArea :=
  match s.wrappedPosition env with
  | some (lines, idx, targetCol) =>
    match lines[idx + 1]? with
    | some next => s.moveKeepingCol env (next.1, next.2 - 1) targetCol
    | none => s.moveToEnd (utf8Len s.text)
  | none =>
    match findByte (· == '\n') (dropBytes s.cursorPos s.text) with
    | some i =>
      let nextLineStart := i + s.cursorPos + 1
      s.moveKeepingCol env (nextLineStart, s.endOfLine nextLineStart)
        (s.preferredCol.getD (s.currentDisplayCol env))
    | none => s.moveToEnd (utf8Len s.text)

def moveCursorToBeginningOfLine (moveUpAtBol : Bool) : TextArea :=
  let bol := s.beginningOfCurrentLine
  if moveUpAtBol && decide (s.cursorPos = bol) then
    s.setCursor (s.beginningOfLine (s.cursorPos - 1))
  else s.setCursor bol

def moveCursorToEndOfLine (moveDownAtEol : Bool) : TextArea :=
  let eol := s.endOfCurrentLine
  if moveDownAtEol && decide (s.cursorPos = eol) then
    s.setCursor (s.endOfLine (min (s.cursorPos + 1) (utf8Len s.text)))
  else s.setCursor eol

/-- `wrapped_lines`, which fills the cache when the text is drawn. -/
def wrappedLines (width : ℕ) : TextArea :=
  match s.wrapCache with
  | some cache =>
    if cache.width = width then s
    else { s with wrapCache := some ⟨width, env.wrapRanges width s.text⟩ }
  | none => { s with wrapCache := some ⟨width, env.wrapRanges width s.text⟩ }

end TextArea

end Codex.Tui
