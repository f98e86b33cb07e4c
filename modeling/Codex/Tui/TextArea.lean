import Codex.Lib.Utf8
import Mathlib.Data.List.Sort

/-!
# The text area of the composer

The state of `TextArea` and the operations that its editing commands are made of: rounding a
position out of the elements, inserting, replacing a range that is first expanded to whole elements,
shifting the elements, and the operations on the elements themselves. Positions are byte offsets
into the text. Screen output and scrolling are left out.
-/

namespace Codex.Tui

open Codex.Lib
open String (utf8Len)

/-! ### State -/

/-- What the text area takes from its libraries: grapheme clusters and word bounds
(`unicode_segmentation`), display width (`unicode_width`), line wrapping, and whether the build is
for Windows, where AltGr reports as Alt and Control. -/
structure TextEnv where
  graphemes : Text → List Text
  graphemes_flatten : ∀ text, (graphemes text).flatten = text
  wordBounds : Text → List Text
  wordBounds_flatten : ∀ text, (wordBounds text).flatten = text
  width : Text → ℕ
  wrapRanges : ℕ → Text → List (ℕ × ℕ)
  windows : Bool

/-- `Range<usize>`: the bytes from `start` up to `stop`. -/
structure Range where
  start : ℕ
  stop : ℕ
deriving DecidableEq

/-- A placeholder that moves and is deleted as one. -/
structure TextElement where
  id : ℕ
  range : Range
deriving DecidableEq

inductive KeyCode where
  | char (c : Char)
  | esc
  | other (code : ℕ)
deriving DecidableEq

structure KeyModifiers where
  shift : Bool
  control : Bool
  alt : Bool
  super : Bool
  hyper : Bool
  metaKey : Bool
deriving DecidableEq

inductive KeyEventKind where
  | press
  | repeated
  | release
deriving DecidableEq

structure KeyEvent where
  code : KeyCode
  modifiers : KeyModifiers
  kind : KeyEventKind
deriving DecidableEq

/-- A list of key bindings, read through `is_pressed`: the events that one of them takes. -/
abbrev KeyBindings := KeyEvent → Bool

structure EditorKeymap where
  insertNewline : KeyBindings
  moveLeft : KeyBindings
  moveRight : KeyBindings
  moveUp : KeyBindings
  moveDown : KeyBindings
  moveWordLeft : KeyBindings
  moveWordRight : KeyBindings
  moveLineStart : KeyBindings
  moveLineEnd : KeyBindings
  deleteBackward : KeyBindings
  deleteForward : KeyBindings
  deleteBackwardWord : KeyBindings
  deleteForwardWord : KeyBindings
  killLineStart : KeyBindings
  killWholeLine : KeyBindings
  killLineEnd : KeyBindings
  yank : KeyBindings

structure VimNormalKeymap where
  enterInsert : KeyBindings
  appendAfterCursor : KeyBindings
  appendLineEnd : KeyBindings
  insertLineStart : KeyBindings
  openLineBelow : KeyBindings
  openLineAbove : KeyBindings
  moveLeft : KeyBindings
  moveRight : KeyBindings
  moveUp : KeyBindings
  moveDown : KeyBindings
  moveWordForward : KeyBindings
  moveWordBackward : KeyBindings
  moveWordEnd : KeyBindings
  moveLineStart : KeyBindings
  moveLineEnd : KeyBindings
  deleteChar : KeyBindings
  substituteChar : KeyBindings
  deleteToLineEnd : KeyBindings
  changeToLineEnd : KeyBindings
  yankLine : KeyBindings
  pasteAfter : KeyBindings
  startDeleteOperator : KeyBindings
  startYankOperator : KeyBindings
  startChangeOperator : KeyBindings
  cancelOperator : KeyBindings

structure VimOperatorKeymap where
  deleteLine : KeyBindings
  yankLine : KeyBindings
  motionLeft : KeyBindings
  motionRight : KeyBindings
  motionUp : KeyBindings
  motionDown : KeyBindings
  motionWordForward : KeyBindings
  motionWordBackward : KeyBindings
  motionWordEnd : KeyBindings
  motionLineStart : KeyBindings
  motionLineEnd : KeyBindings
  selectInnerTextObject : KeyBindings
  selectAroundTextObject : KeyBindings
  cancel : KeyBindings

structure VimTextObjectKeymap where
  word : KeyBindings
  bigWord : KeyBindings
  parentheses : KeyBindings
  brackets : KeyBindings
  braces : KeyBindings
  doubleQuote : KeyBindings
  singleQuote : KeyBindings
  backtick : KeyBindings
  cancel : KeyBindings

/-- The part of the keymap that `set_keymap_bindings` reads. -/
structure RuntimeKeymap where
  editor : EditorKeymap
  vimNormal : VimNormalKeymap
  vimOperator : VimOperatorKeymap
  vimTextObject : VimTextObjectKeymap

inductive VimMode where
  | normal
  | insert
deriving DecidableEq

inductive VimOperator where
  | delete
  | yank
  | change
deriving DecidableEq

inductive VimTextObjectScope where
  | inner
  | around
deriving DecidableEq

inductive VimPending where
  | none
  | operator (op : VimOperator)
  | textObject (operator : VimOperator) (scope : VimTextObjectScope)
deriving DecidableEq

inductive KillBufferKind where
  | characterwise
  | linewise
deriving DecidableEq

structure WrapCache where
  width : ℕ
  lines : List (ℕ × ℕ)
deriving DecidableEq

structure TextArea where
  text : Text
  cursorPos : ℕ
  wrapCache : Option WrapCache
  preferredCol : Option ℕ
  elements : List TextElement
  nextElementId : ℕ
  killBuffer : Text
  killBufferKind : KillBufferKind
  vimEnabled : Bool
  vimMode : VimMode
  vimPending : VimPending
  editorKeymap : EditorKeymap
  vimNormalKeymap : VimNormalKeymap
  vimOperatorKeymap : VimOperatorKeymap
  vimTextObjectKeymap : VimTextObjectKeymap

namespace TextArea

variable (env : TextEnv) (s : TextArea)

def new (defaults : RuntimeKeymap) : TextArea where
  text := []
  cursorPos := 0
  wrapCache := none
  preferredCol := none
  elements := []
  nextElementId := 1
  killBuffer := []
  killBufferKind := .characterwise
  vimEnabled := false
  vimMode := .insert
  vimPending := .none
  editorKeymap := defaults.editor
  vimNormalKeymap := defaults.vimNormal
  vimOperatorKeymap := defaults.vimOperator
  vimTextObjectKeymap := defaults.vimTextObject

/-! ### Positions and elements -/

variable (pos : ℕ)

def findElementContaining : Option TextElement :=
  s.elements.find? fun e => decide (e.range.start < pos ∧ pos < e.range.stop)

def clampPosToCharBoundary : ℕ := clampToBoundary s.text pos

/-- The character boundary nearest to the position, or the nearest edge of the element it is in. -/
def clampPosOutOfElements : ℕ :=
  let pos := s.clampPosToCharBoundary pos
  match s.findElementContaining pos with
  | some e =>
    if pos - e.range.start ≤ e.range.stop - pos then s.clampPosToCharBoundary e.range.start
    else s.clampPosToCharBoundary e.range.stop
  | none => pos

def clampPosToNearestBoundary : ℕ := s.clampPosOutOfElements pos

def clampPosForInsertion : ℕ := s.clampPosOutOfElements pos

def adjustPosOutOfElements (preferStart : Bool) : ℕ :=
  match s.findElementContaining pos with
  | some e => if preferStart then e.range.start else e.range.stop
  | none => pos

/-- The offsets at which the pieces of a text start, and that at which the last one ends. -/
def pieceBounds (offset : ℕ) : List Text → List ℕ
  | [] => [offset]
  | piece :: pieces => offset :: pieceBounds (offset + utf8Len piece) pieces

/-- `GraphemeCursor::prev_boundary`: the last grapheme boundary before the position. -/
def prevGraphemeBoundary : Option ℕ :=
  ((pieceBounds 0 (env.graphemes s.text)).filter (· < pos)).getLast?

/-- `GraphemeCursor::next_boundary`: the first grapheme boundary after the position. -/
def nextGraphemeBoundary : Option ℕ :=
  ((pieceBounds 0 (env.graphemes s.text)).filter (pos < ·)).head?

/-- `prev_atomic_boundary`. The cursor is given the whole text, so it returns no error. -/
def prevAtomicBoundary : ℕ :=
  if pos = 0 then 0
  else
    match s.elements.find? fun e => decide (e.range.start < pos ∧ pos ≤ e.range.stop) with
    | some e => e.range.start
    | none =>
      match s.prevGraphemeBoundary env pos with
      | some b => s.adjustPosOutOfElements b true
      | none => 0

def nextAtomicBoundary : ℕ :=
  if utf8Len s.text ≤ pos then utf8Len s.text
  else
    match s.elements.find? fun e => decide (e.range.start ≤ pos ∧ pos < e.range.stop) with
    | some e => e.range.stop
    | none =>
      match s.nextGraphemeBoundary env pos with
      | some b => s.adjustPosOutOfElements b false
      | none => utf8Len s.text

/-! ### Edits -/

def setCursor : TextArea :=
  { s with
    cursorPos := s.clampPosToNearestBoundary (min pos (utf8Len s.text))
    preferredCol := none }

/-- The element moved by the difference of two lengths. -/
def moveElement (removed inserted : ℕ) (e : TextElement) : TextElement :=
  { e with range := ⟨e.range.start + inserted - removed, e.range.stop + inserted - removed⟩ }

/-- The new range of an element that an edit at `pos` did not delete. -/
def shiftElement (pos removed inserted : ℕ) (e : TextElement) : TextElement :=
  if e.range.stop ≤ pos then e
  else if pos + removed ≤ e.range.start then moveElement removed inserted e
  else
    { e with
      range := ⟨min pos e.range.start, pos + max inserted (e.range.stop - (pos + removed))⟩ }

/-- The elements after an edit at `pos`: those in the removed text are gone. -/
def shiftAll (pos removed inserted : ℕ) (elements : List TextElement) : List TextElement :=
  (elements.filter fun e =>
    !decide (pos ≤ e.range.start ∧ e.range.stop ≤ pos + removed)).map
      (shiftElement pos removed inserted)

def shiftElements (pos removed inserted : ℕ) : TextArea :=
  { s with elements := shiftAll pos removed inserted s.elements }

def updateElementsAfterReplace (start stop insertedLen : ℕ) : TextArea :=
  s.shiftElements start (stop - start) insertedLen

def insertStrAt (text : Text) : TextArea :=
  let pos := s.clampPosForInsertion pos
  let edited := { s with
    text := splice s.text pos pos text
    wrapCache := none
    cursorPos := if pos ≤ s.cursorPos then s.cursorPos + utf8Len text else s.cursorPos
    preferredCol := none }
  edited.shiftElements pos 0 (utf8Len text)

def insertStr (text : Text) : TextArea := s.insertStrAt s.cursorPos text

variable (range : Range)

/-- The range with the element, if they intersect. -/
def expandStep (e : TextElement) : Range :=
  if e.range.start < range.stop ∧ range.start < e.range.stop then
    ⟨min range.start e.range.start, max range.stop e.range.stop⟩
  else range

/-- The loop of `expand_range_to_element_boundaries`: passes over the elements until one changes
nothing. -/
def expandLoop (elements : List TextElement) : ℕ → Range → Range
  | 0, range => range
  | fuel + 1, range =>
    let expanded := elements.foldl expandStep range
    if expanded = range then range else expandLoop elements fuel expanded

/-- `expand_range_to_element_boundaries`. A pass that changes the range takes in an element
whole, so there are at most as many of them as elements, and one that changes nothing. -/
def expandRangeToElementBoundaries : Range :=
  expandLoop s.elements (s.elements.length + 1) range

/-- The cursor after `removed` bytes at `start` gave way to `inserted` ones. -/
def cursorAfterEdit (start stop inserted cursor : ℕ) : ℕ :=
  if cursor < start then cursor
  else if cursor ≤ stop then start + inserted
  else cursor + inserted - (stop - start)

variable (text : Text)

def replaceRangeRaw : TextArea :=
  let start := min range.start (utf8Len s.text)
  let stop := min range.stop (utf8Len s.text)
  if stop - start = 0 ∧ utf8Len text = 0 then s
  else
    let edited := { s with
      text := splice s.text range.start range.stop text
      wrapCache := none
      preferredCol := none }
    let shifted := edited.updateElementsAfterReplace start stop (utf8Len text)
    let cursor := cursorAfterEdit start stop (utf8Len text) s.cursorPos
    { shifted with
      cursorPos := shifted.clampPosToNearestBoundary (min cursor (utf8Len shifted.text)) }

def replaceRange : TextArea :=
  s.replaceRangeRaw (s.expandRangeToElementBoundaries range) text

/-! ### Operations on the elements -/

/-- `text.get(range)`: no text where the range is not one of character boundaries. -/
def payload (e : TextElement) : Option Text :=
  if e.range.start ≤ e.range.stop ∧ IsBoundary s.text e.range.start ∧
      IsBoundary s.text e.range.stop then
    some (slice s.text e.range.start e.range.stop)
  else none

/-- `sort_by_key(|e| e.range.start)`. -/
def sortElements (elements : List TextElement) : List TextElement :=
  elements.insertionSort fun a b => a.range.start ≤ b.range.start

/-- `next_element_id`, the counter that is left. -/
def bumpElementId (id : ℕ) : ℕ := min (id + 1) (2 ^ 64 - 1)

def addElement : TextArea × ℕ :=
  ({ s with
      nextElementId := bumpElementId s.nextElementId
      elements := sortElements (s.elements ++ [⟨s.nextElementId, range⟩]) },
    s.nextElementId)

def insertElement : TextArea × ℕ :=
  let start := s.clampPosForInsertion s.cursorPos
  let inserted := s.insertStrAt start text
  let stop := start + utf8Len text
  let added := inserted.addElement ⟨start, stop⟩
  (added.1.setCursor stop, added.2)

/-- The range rounded to character boundaries within the text. -/
def clampRange : Range :=
  ⟨s.clampPosToCharBoundary (min range.start (utf8Len s.text)),
    s.clampPosToCharBoundary (min range.stop (utf8Len s.text))⟩

def addElementRange : TextArea × Option ℕ :=
  let range := s.clampRange range
  if range.stop ≤ range.start then (s, none)
  else if s.elements.any fun e => decide (e.range = range) then (s, none)
  else if s.elements.any fun e =>
      decide (range.start < e.range.stop ∧ e.range.start < range.stop) then
    (s, none)
  else
    let added := s.addElement range
    (added.1, some added.2)

def removeElementRange : TextArea × Bool :=
  let range := s.clampRange range
  if range.stop ≤ range.start then (s, false)
  else
    let kept := s.elements.filter fun e => !decide (e.range = range)
    ({ s with elements := kept }, s.elements.length != kept.length)

/-- The new range of the elements beside the one replaced. -/
def shiftBeside (start stop inserted : ℕ) (e : TextElement) : TextElement :=
  if inserted = stop - start then e
  else if e.range.stop ≤ start then e
  else if stop ≤ e.range.start then moveElement (stop - start) inserted e
  else
    { e with
      range := ⟨min start e.range.start,
        max (start + inserted) (e.range.stop + inserted - (stop - start))⟩ }

/-- The elements after the one at `idx` was replaced. -/
def replacedAt (idx start stop inserted j : ℕ) (e : TextElement) : TextElement :=
  if j = idx then { e with range := ⟨start, start + inserted⟩ }
  else shiftBeside start stop inserted e

def replaceElementPayload (old new : Text) : TextArea × Bool :=
  match s.elements.findIdx? (fun e => decide (s.payload e = some old)) with
  | none => (s, false)
  | some idx =>
    match s.elements[idx]? with
    | none => (s, false)
    | some found =>
      let start := found.range.start
      let stop := found.range.stop
      if stop < start ∨ utf8Len s.text < stop then (s, false)
      else
        let edited := { s with
          text := splice s.text start stop new
          wrapCache := none
          preferredCol := none
          elements := s.elements.mapIdx (replacedAt idx start stop (utf8Len new)) }
        let cursor := cursorAfterEdit start stop (utf8Len new) s.cursorPos
        ({ edited with
            cursorPos := edited.clampPosToNearestBoundary cursor
            elements := sortElements edited.elements }, true)

/-- One element given to `set_text_inner`: dropped if nothing of it is left. -/
def pushElement : TextArea :=
  let range := s.clampRange range
  if range.stop ≤ range.start then s
  else
    { s with
      nextElementId := bumpElementId s.nextElementId
      elements := s.elements ++ [⟨s.nextElementId, range⟩] }

def setTextInner (elements : Option (List Range)) : TextArea :=
  let cleared := { s with
    text := text
    cursorPos := min s.cursorPos (utf8Len text)
    elements := [] }
  let rebuilt :=
    match elements with
    | some elements =>
      let pushed := elements.foldl pushElement cleared
      { pushed with elements := sortElements pushed.elements }
    | none => cleared
  { rebuilt with
    cursorPos := rebuilt.clampPosToNearestBoundary rebuilt.cursorPos
    wrapCache := none
    preferredCol := none }

def setTextClearingElements : TextArea := s.setTextInner text none

def setTextWithElements (elements : List Range) : TextArea :=
  s.setTextInner text (some elements)

end TextArea

end Codex.Tui
