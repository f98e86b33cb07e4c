import Codex.Tui.TextObjects

/-!
# Key input

The editing commands (deletions, kills, yanks) and what the keys of the editor keymap and of the
Vim modes do with them. A kill puts the text it removes into the kill buffer; in Vim's normal mode
an operator waits for a motion or a text object, and `Escape` leaves insert mode.
-/

namespace Codex.Tui

open Codex.Lib
open String (utf8Len)

inductive VimMotion where
  | left
  | right
  | up
  | down
  | wordForward
  | wordBackward
  | wordEnd
  | lineStart
  | lineEnd
deriving DecidableEq

/-- `event.kind` is a press or a repeat. -/
def KeyEvent.isDown (event : KeyEvent) : Bool := event.kind != .release

def KeyModifiers.none : KeyModifiers := ⟨false, false, false, false, false, false⟩

def KeyModifiers.onlyShift : KeyModifiers := ⟨true, false, false, false, false, false⟩

def KeyModifiers.onlyControl : KeyModifiers := ⟨false, true, false, false, false, false⟩

def isAltgr (env : TextEnv) (modifiers : KeyModifiers) : Bool :=
  env.windows && modifiers.alt && modifiers.control

def isAsciiControl (c : Char) : Bool := decide (c.toNat < 32 ∨ c.toNat = 127)

/-- The first entry of a table whose keys take the event. -/
def firstPressed {α : Type} (event : KeyEvent) : List (KeyBindings × α) → α → α
  | [], otherwise => otherwise
  | (bindings, action) :: table, otherwise =>
    if bindings event then action else firstPressed event table otherwise

namespace TextArea

variable (env : TextEnv) (s : TextArea)

/-! ### Modes -/

def setKeymapBindings (keymap : RuntimeKeymap) : TextArea :=
  { s with
    editorKeymap := keymap.editor
    vimNormalKeymap := keymap.vimNormal
    vimOperatorKeymap := keymap.vimOperator
    vimTextObjectKeymap := keymap.vimTextObject }

def setVimEnabled (enabled : Bool) : TextArea :=
  { s with
    vimEnabled := enabled
    vimPending := .none
    vimMode := if enabled then .normal else .insert }

def enterVimInsertMode : TextArea :=
  if s.vimEnabled then { s with vimMode := .insert, vimPending := .none } else s

def enterVimNormalMode : TextArea :=
  if s.vimEnabled then
    { s with vimMode := .normal, vimPending := .none, preferredCol := none }
  else s

/-! ### Kills and yanks -/

def storeKillBuffer (text : Text) (kind : KillBufferKind) : TextArea :=
  { s with killBuffer := text, killBufferKind := kind }

variable (range : Range)

def killRangeWithKind (kind : KillBufferKind) : TextArea :=
  let range := s.expandRangeToElementBoundaries range
  if range.stop ≤ range.start then s
  else
    let removed := slice s.text range.start range.stop
    if removed = [] then s else (s.storeKillBuffer removed kind).replaceRangeRaw range []

def killRange : TextArea := s.killRangeWithKind range .characterwise

def killLineRange : TextArea := s.killRangeWithKind range .linewise

def yankRangeWithKind (kind : KillBufferKind) : TextArea :=
  let range := s.expandRangeToElementBoundaries range
  if range.stop ≤ range.start then s
  else
    let removed := slice s.text range.start range.stop
    if removed = [] then s else s.storeKillBuffer removed kind

def yankRange : TextArea := s.yankRangeWithKind range .characterwise

def yankLineRange : TextArea := s.yankRangeWithKind range .linewise

/-- The loop of `delete_backward`. -/
def backwardTarget : ℕ → ℕ → ℕ
  | 0, target => target
  | n + 1, target =>
    let target := s.prevAtomicBoundary env target
    if target = 0 then target else backwardTarget n target

/-- The loop of `delete_forward` and `delete_forward_kill`. -/
def forwardTarget : ℕ → ℕ → ℕ
  | 0, target => target
  | n + 1, target =>
    let target := s.nextAtomicBoundary env target
    if utf8Len s.text ≤ target then target else forwardTarget n target

def deleteBackward (n : ℕ) : TextArea :=
  if n = 0 ∨ s.cursorPos = 0 then s
  else s.replaceRange ⟨s.backwardTarget env n s.cursorPos, s.cursorPos⟩ []

def deleteForward (n : ℕ) : TextArea :=
  if n = 0 ∨ utf8Len s.text ≤ s.cursorPos then s
  else s.replaceRange ⟨s.cursorPos, s.forwardTarget env n s.cursorPos⟩ []

def deleteForwardKill (n : ℕ) : TextArea :=
  if n = 0 ∨ utf8Len s.text ≤ s.cursorPos then s
  else s.killRange ⟨s.cursorPos, s.forwardTarget env n s.cursorPos⟩

def deleteBackwardWord : TextArea := s.killRange ⟨s.beginningOfPreviousWord env, s.cursorPos⟩

def deleteForwardWord : TextArea :=
  let stop := s.endOfNextWord env
  if s.cursorPos < stop then s.killRange ⟨s.cursorPos, stop⟩ else s

def killToEndOfLine : TextArea :=
  let eol := s.endOfCurrentLine
  if s.cursorPos = eol then
    if eol < utf8Len s.text then s.killRange ⟨s.cursorPos, eol + 1⟩ else s
  else s.killRange ⟨s.cursorPos, eol⟩

def vimKillToEndOfLine : TextArea :=
  let eol := s.endOfCurrentLine
  if s.cursorPos < eol then s.killRange ⟨s.cursorPos, eol⟩ else s

def killToBeginningOfLine : TextArea :=
  let bol := s.beginningOfCurrentLine
  if s.cursorPos = bol then if 0 < bol then s.killRange ⟨bol - 1, bol⟩ else s
  else s.killRange ⟨bol, s.cursorPos⟩

def yankCurrentLine : TextArea := s.yankLineRange s.currentLineRangeWithNewline

def killCurrentLine : TextArea := s.killLineRange s.currentLineRangeWithNewline

def yank : TextArea := if s.killBuffer = [] then s else s.insertStr s.killBuffer

def pasteLineAfterCurrentLine : TextArea :=
  let eol := s.endOfCurrentLine
  let insertAt := if eol < utf8Len s.text then eol + 1 else eol
  let cursor := if eol < utf8Len s.text then insertAt else insertAt + 1
  let text :=
    if eol < utf8Len s.text then
      if s.killBuffer.getLast? = some '\n' then s.killBuffer else s.killBuffer ++ ['\n']
    else '\n' :: s.killBuffer.rdropWhile (· == '\n')
  let pasted := s.insertStrAt insertAt text
  pasted.setCursor (min cursor (utf8Len pasted.text))

def pasteAfterCursor : TextArea :=
  if s.killBuffer = [] then s
  else if s.killBufferKind = .linewise then s.pasteLineAfterCurrentLine
  else (s.setCursor (s.nextAtomicBoundary env s.cursorPos)).insertStr s.killBuffer

/-! ### The editor keymap -/

variable (event : KeyEvent)

def inputWithKeymap (keymap : EditorKeymap) : TextArea :=
  let typed :=
    match event.code with
    | .char c => s.insertStr [c]
    | _ => s
  let isChar := fun event : KeyEvent => event.code matches .char _
  firstPressed event
    [(keymap.insertNewline, s.insertStr ['\n']),
      (keymap.deleteBackwardWord, s.deleteBackwardWord env),
      (fun event => isChar event && isAltgr env event.modifiers, typed),
      (keymap.deleteBackward, s.deleteBackward env 1),
      (keymap.deleteForwardWord, s.deleteForwardWord env),
      (keymap.deleteForward, s.deleteForward env 1),
      (keymap.killLineStart, s.killToBeginningOfLine),
      (keymap.killWholeLine, s.killCurrentLine),
      (keymap.killLineEnd, s.killToEndOfLine),
      (keymap.yank, s.yank),
      (keymap.moveWordLeft, s.setCursor (s.beginningOfPreviousWord env)),
      (keymap.moveWordRight, s.setCursor (s.endOfNextWord env)),
      (keymap.moveLeft, s.moveCursorLeft env),
      (keymap.moveRight, s.moveCursorRight env),
      (keymap.moveUp, s.moveCursorUp env),
      (keymap.moveDown, s.moveCursorDown env),
      (keymap.moveLineStart, s.moveCursorToBeginningOfLine
        (decide (event.code = .char 'a' ∧ event.modifiers = .onlyControl))),
      (keymap.moveLineEnd, s.moveCursorToEndOfLine
        (decide (event.code = .char 'e' ∧ event.modifiers = .onlyControl))),
      (fun event =>
        isChar event && (event.modifiers = .none || event.modifiers = .onlyShift),
        match event.code with
        | .char c => if isAsciiControl c then s else s.insertStr [c]
        | _ => s)]
    s

/-! ### Vim operators -/

def vimMotionForEvent : Option VimMotion :=
  firstPressed event
    [(s.vimOperatorKeymap.motionLeft, some .left), (s.vimOperatorKeymap.motionRight, some .right),
      (s.vimOperatorKeymap.motionDown, some .down),
      (s.vimOperatorKeymap.motionUp, some .up),
      (s.vimOperatorKeymap.motionWordForward, some .wordForward),
      (s.vimOperatorKeymap.motionWordBackward, some .wordBackward),
      (s.vimOperatorKeymap.motionWordEnd, some .wordEnd),
      (s.vimOperatorKeymap.motionLineStart, some .lineStart),
      (s.vimOperatorKeymap.motionLineEnd, some .lineEnd)]
    none

def vimTextObjectScopeForEvent : Option VimTextObjectScope :=
  firstPressed event
    [(s.vimOperatorKeymap.selectInnerTextObject, some .inner),
      (s.vimOperatorKeymap.selectAroundTextObject, some .around)]
    none

def vimTextObjectForEvent : Option VimTextObject :=
  firstPressed event
    [(s.vimTextObjectKeymap.word, some .word), (s.vimTextObjectKeymap.bigWord, some .bigWord),
      (s.vimTextObjectKeymap.parentheses, some .parentheses),
      (s.vimTextObjectKeymap.brackets, some .brackets),
      (s.vimTextObjectKeymap.braces, some .braces),
      (s.vimTextObjectKeymap.doubleQuote, some .doubleQuote),
      (s.vimTextObjectKeymap.singleQuote, some .singleQuote),
      (s.vimTextObjectKeymap.backtick, some .backtick)]
    none

variable (motion : VimMotion)

/-- The state after the movement of `target_for_motion`. -/
def movedBy : TextArea :=
  match motion with
  | .left => s.moveCursorLeft env
  | .right => s.moveCursorRight env
  | .up => s.moveCursorUp env
  | .down => s.moveCursorDown env
  | .wordForward => s.setCursor (s.beginningOfNextWord env)
  | .wordBackward => s.setCursor (s.beginningOfPreviousWord env)
  | .wordEnd => s.setCursor (s.vimWordEndExclusive env)
  | .lineStart => s.setCursor s.beginningOfCurrentLine
  | .lineEnd => s.setCursor s.endOfCurrentLine

/-- `target_for_motion`, which puts the cursor and the preferred column back. -/
def targetForMotion : ℕ := (s.movedBy env motion).cursorPos

def linewiseRangeForVerticalMotion : Option Range :=
  let current := s.currentLineRangeWithNewline
  let range : Option Range :=
    match motion with
    | .up =>
      some ⟨if current.start = 0 then current.start else s.beginningOfLine (current.start - 1),
        current.stop⟩
    | .down =>
      let nextEol := s.endOfLine current.stop
      some ⟨current.start, if utf8Len s.text ≤ current.stop then current.stop
        else if nextEol < utf8Len s.text then nextEol + 1 else nextEol⟩
    | _ => none
  range.filter fun range => decide (range.start < range.stop)

def rangeForMotion : Option Range :=
  if motion = .up ∨ motion = .down then s.linewiseRangeForVerticalMotion motion
  else
    let start := s.cursorPos
    let target := s.targetForMotion env motion
    if start = target then none
    else if target < start then some ⟨target, start⟩ else some ⟨start, target⟩

variable (op : VimOperator)

def applyVimOperator (motion : VimMotion) : TextArea :=
  match s.rangeForMotion env motion with
  | none => s
  | some range =>
    match op with
    | .delete => s.killRange range
    | .yank => s.yankRange range
    | .change => s

def applyVimOperatorToRange (range : Range) : TextArea :=
  match op with
  | .delete => s.killRange range
  | .yank => s.yankRange range
  | .change => { s.killRange range with vimMode := .insert }

/-- `handle_vim_text_object`. The state has no operator pending. -/
def handleVimTextObject (scope : VimTextObjectScope) (event : KeyEvent) : TextArea :=
  if s.vimTextObjectKeymap.cancel event then s
  else
    match s.vimTextObjectForEvent event with
    | none => s
    | some object =>
      match s.textObjectRange env object scope with
      | some range => s.applyVimOperatorToRange op range
      | none => s

/-- `handle_vim_operator`. The state has no operator pending. -/
def handleVimOperator (event : KeyEvent) : TextArea :=
  if op = .delete ∧ s.vimOperatorKeymap.deleteLine event then s.killCurrentLine
  else if op = .yank ∧ s.vimOperatorKeymap.yankLine event then s.yankCurrentLine
  else if s.vimOperatorKeymap.cancel event then s
  else
    match s.vimTextObjectScopeForEvent event with
    | some scope => { s with vimPending := .textObject op scope }
    | none =>
      match if op = .change then none else s.vimMotionForEvent event with
      | some motion => s.applyVimOperator env op motion
      | none => s

/-! ### Vim modes -/

/-- The state with the mode of Vim set to insert. -/
def toInsert : TextArea := { s with vimMode := .insert }

/-- The key `open_line_below`. -/
def openLineBelow : TextArea :=
  let eol := s.endOfCurrentLine
  let oldLen := utf8Len s.text
  let insertAt := if eol < oldLen then eol + 1 else eol
  let cursor := if eol < oldLen then insertAt else insertAt + 1
  ((s.insertStrAt insertAt ['\n']).setCursor cursor).toInsert

/-- The key `open_line_above`. -/
def openLineAbove : TextArea :=
  let bol := s.beginningOfCurrentLine
  ((s.insertStrAt bol ['\n']).setCursor bol).toInsert

/-- The keys of normal mode when no operator is pending. -/
def handleVimCommand : TextArea :=
  let keymap := s.vimNormalKeymap
  firstPressed event
    [(keymap.enterInsert, s.toInsert), (keymap.appendAfterCursor,
        (s.setCursor (s.nextAtomicBoundary env s.cursorPos)).toInsert),
      (keymap.appendLineEnd, (s.setCursor s.endOfCurrentLine).toInsert),
      (keymap.insertLineStart, (s.setCursor s.firstNonBlankOfCurrentLine).toInsert),
      (keymap.openLineBelow, s.openLineBelow),
      (keymap.openLineAbove, s.openLineAbove),
      (keymap.moveLeft, s.moveCursorLeft env),
      (keymap.moveRight, s.moveCursorRight env),
      (keymap.moveDown, s.moveCursorDown env),
      (keymap.moveUp, s.moveCursorUp env),
      (keymap.moveWordForward, s.setCursor (s.beginningOfNextWord env)),
      (keymap.moveWordBackward, s.setCursor (s.beginningOfPreviousWord env)),
      (keymap.moveWordEnd, s.setCursor (s.vimWordEndCursor env)),
      (keymap.moveLineStart, s.setCursor s.beginningOfCurrentLine),
      (keymap.moveLineEnd, s.setCursor (s.vimLineEndCursor env)),
      (keymap.deleteChar, s.deleteForwardKill env 1),
      (keymap.substituteChar,
        (if s.cursorPos < s.endOfCurrentLine then s.deleteForwardKill env 1 else s).toInsert),
      (keymap.deleteToLineEnd, s.vimKillToEndOfLine),
      (keymap.changeToLineEnd, s.vimKillToEndOfLine.toInsert),
      (keymap.yankLine, s.yankCurrentLine),
      (keymap.pasteAfter, s.pasteAfterCursor env),
      (keymap.startDeleteOperator, { s with vimPending := .operator .delete }),
      (keymap.startYankOperator, { s with vimPending := .operator .yank }),
      (keymap.startChangeOperator, { s with vimPending := .operator .change }),
      (keymap.cancelOperator, { s with vimPending := .none })]
    s

def handleVimNormal : TextArea :=
  let pending := s.vimPending
  let s := { s with vimPending := .none }
  match pending with
  | .none => s.handleVimCommand env event
  | .operator op => s.handleVimOperator env op event
  | .textObject operator scope => s.handleVimTextObject env operator scope event

/-- The cursor after Escape in insert mode. -/
def escapeCursor : ℕ :=
  let bol := s.beginningOfCurrentLine
  if bol < s.cursorPos then max (s.prevAtomicBoundary env s.cursorPos) bol else s.cursorPos

def handleVimInsert : TextArea :=
  if event.code = .esc then { s with cursorPos := s.escapeCursor env }.enterVimNormalMode
  else s.inputWithKeymap env event s.editorKeymap

def handleVimInput : TextArea :=
  match s.vimMode with
  | .insert => s.handleVimInsert env event
  | .normal => s.handleVimNormal env event

def input : TextArea :=
  if event.isDown then
    if s.vimEnabled then s.handleVimInput env event
    else s.inputWithKeymap env event s.editorKeymap
  else s

end TextArea

end Codex.Tui
