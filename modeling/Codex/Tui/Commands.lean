import Codex.Tui.Positions

/-!
# Commands keep the elements

Every command that edits through the cursor keeps the invariant of the text area and the text under
the elements that it does not remove as a whole: deletions, kills, yanks, and all keys of the
editor keymap and of the Vim modes. Escape in insert mode is the one exception: it may put the
cursor at a start of line inside an element.

* `kept_inputWithKeymap`, `kept_handleVimNormal`: the editor keymap and Vim's normal mode;
* `kept_input`: every key event, under the condition on Escape.

A command is a movement or an edit of a range between two positions that the movements yield, so
each lemma only names its range.
-/

namespace Codex.Tui

open Codex.Lib
open String (utf8Len)

/-- What holds of every action of a table and of the default holds of the action taken. -/
theorem firstPressed_induction {α : Type} {P : α → Prop} (event : KeyEvent) {otherwise : α}
    (ho : P otherwise) (table : List (KeyBindings × α)) (h : ∀ entry ∈ table, P entry.2) :
    P (firstPressed event table otherwise) := by
  induction table with
  | nil => exact ho
  | cons entry table ih =>
    rw [firstPressed]
    split
    · exact h entry List.mem_cons_self
    · exact ih fun f hf => h f (List.mem_cons_of_mem entry hf)

namespace TextArea

variable (env : TextEnv) {s : TextArea}

/-! ### Deletions -/

lemma prevAtomicBoundary_le (pos : ℕ) : s.prevAtomicBoundary env pos ≤ pos := by
  rw [prevAtomicBoundary]
  split
  · exact Nat.zero_le pos
  · cases hfind : s.elements.find? _ with
    | some e =>
      have hin := List.find?_some hfind
      exact (of_decide_eq_true hin).1.le
    | none =>
      cases hprev : s.prevGraphemeBoundary env pos with
      | none => exact Nat.zero_le pos
      | some b =>
        have hb := List.mem_filter.mp (List.mem_of_getLast? hprev)
        have hlt : b < pos := of_decide_eq_true hb.2
        simp only [adjustPosOutOfElements]
        cases hin : s.findElementContaining b with
        | none => exact hlt.le
        | some e => exact ((findElementContaining_eq_some hin).2.1.trans hlt).le

lemma le_nextAtomicBoundary {pos : ℕ} (h : pos ≤ utf8Len s.text) :
    pos ≤ s.nextAtomicBoundary env pos := by
  rw [nextAtomicBoundary]
  split
  · exact h
  · cases hfind : s.elements.find? _ with
    | some e =>
      have hin := List.find?_some hfind
      exact (of_decide_eq_true hin).2.le
    | none =>
      cases hnext : s.nextGraphemeBoundary env pos with
      | none => exact h
      | some b =>
        have hb := List.mem_filter.mp (List.mem_of_head? hnext)
        have hlt : pos < b := of_decide_eq_true hb.2
        simp only [adjustPosOutOfElements]
        cases hin : s.findElementContaining b with
        | none => exact hlt.le
        | some e => exact (hlt.trans (findElementContaining_eq_some hin).2.2).le

variable (h : s.Valid)
include h

variable (n : ℕ)

lemma backwardTarget_spec {pos : ℕ} (hpos : IsBoundary s.text pos) :
    IsBoundary s.text (s.backwardTarget env n pos) ∧ s.backwardTarget env n pos ≤ pos := by
  induction n generalizing pos with
  | zero => exact ⟨hpos, le_rfl⟩
  | succ n ih =>
    have hprev := (atomic_prevAtomicBoundary env h.placed pos).boundary
    have hle := prevAtomicBoundary_le (s := s) env pos
    simp only [backwardTarget]
    split
    · exact ⟨hprev, hle⟩
    · obtain ⟨hb, hb'⟩ := ih hprev
      exact ⟨hb, hb'.trans hle⟩

lemma forwardTarget_spec {pos : ℕ} (hpos : IsBoundary s.text pos) :
    IsBoundary s.text (s.forwardTarget env n pos) ∧ pos ≤ s.forwardTarget env n pos := by
  induction n generalizing pos with
  | zero => exact ⟨hpos, le_rfl⟩
  | succ n ih =>
    have hnext := (atomic_nextAtomicBoundary env h.placed pos).boundary
    have hle := le_nextAtomicBoundary env hpos.le
    simp only [forwardTarget]
    split
    · exact ⟨hnext, hle⟩
    · obtain ⟨hb, hb'⟩ := ih hnext
      exact ⟨hb, hle.trans hb'⟩

lemma kept_deleteBackward : Kept [] s (s.deleteBackward env n) := by
  obtain ⟨hb, hle⟩ := backwardTarget_spec env h n h.cursor.boundary
  rw [deleteBackward]
  split
  · exact kept_self h
  · exact kept_replaceRange h hb h.cursor.boundary hle

lemma kept_deleteForward : Kept [] s (s.deleteForward env n) := by
  obtain ⟨hb, hle⟩ := forwardTarget_spec env h n h.cursor.boundary
  rw [deleteForward]
  split
  · exact kept_self h
  · exact kept_replaceRange h h.cursor.boundary hb hle

lemma kept_deleteForwardKill : Kept [] s (s.deleteForwardKill env n) := by
  rw [deleteForwardKill]
  split
  · exact kept_self h
  · exact kept_killRange h h.cursor.boundary (forwardTarget_spec env h n h.cursor.boundary).1

lemma kept_deleteBackwardWord : Kept [] s (s.deleteBackwardWord env) :=
  kept_killRange h (isBoundary_beginningOfPreviousWord env h) h.cursor.boundary

lemma kept_deleteForwardWord : Kept [] s (s.deleteForwardWord env) := by
  simp only [deleteForwardWord]
  split
  · exact kept_killRange h h.cursor.boundary (isBoundary_endOfNextWord env h)
  · exact kept_self h

lemma kept_killToEndOfLine : Kept [] s s.killToEndOfLine := by
  have hpos := h.cursor.boundary
  simp only [killToEndOfLine]
  split
  · split
    · exact kept_killRange h hpos (isBoundary_endOfLine_succ hpos ‹_›)
    · exact kept_self h
  · exact kept_killRange h hpos (isBoundary_endOfLine hpos)

lemma kept_vimKillToEndOfLine : Kept [] s s.vimKillToEndOfLine := by
  have hpos := h.cursor.boundary
  simp only [vimKillToEndOfLine]
  split
  · exact kept_killRange h hpos (isBoundary_endOfLine hpos)
  · exact kept_self h

lemma kept_killToBeginningOfLine : Kept [] s s.killToBeginningOfLine := by
  have hpos := h.cursor.boundary
  simp only [killToBeginningOfLine]
  split
  · split
    · exact kept_killRange h (isBoundary_beginningOfLine_pred ‹_›) (isBoundary_beginningOfLine _)
    · exact kept_self h
  · exact kept_killRange h (isBoundary_beginningOfLine _) hpos

lemma kept_killCurrentLine : Kept [] s s.killCurrentLine :=
  kept_killRangeWithKind h .linewise (onBoundaries_currentLine h).start
    (onBoundaries_currentLine h).stop

/-! ### Yanks and pastes -/

variable {new : Text}

lemma kept_yankCurrentLine : Kept new s s.yankCurrentLine :=
  kept_yankRangeWithKind h _ .linewise

lemma kept_yank : Kept new s s.yank := by
  rw [yank]
  split
  · exact kept_self h
  · exact kept_insertStr h _

lemma kept_insertThenSet (pos cursor : ℕ) (text : Text) :
    Kept new s ((s.insertStrAt pos text).setCursor cursor) := by
  have hkept : Kept new s (s.insertStrAt pos text) := kept_insertStrAt h pos text
  exact hkept.moved (moved_setCursor hkept.valid cursor)

lemma kept_pasteAfterCursor : Kept new s (s.pasteAfterCursor env) := by
  rw [pasteAfterCursor]
  split
  · exact kept_self h
  split
  · exact kept_insertThenSet h _ _ _
  · have hmoved := moved_setCursor h (s.nextAtomicBoundary env s.cursorPos)
    have hset : Kept new s _ := hmoved.kept h
    exact hmoved.then (kept_insertStr hset.valid _)

/-! ### The editor keymap -/

lemma kept_inputWithKeymap (event : KeyEvent) (keymap : EditorKeymap) :
    Kept [] s (s.inputWithKeymap env event keymap) := by
  have hinsert : ∀ text, Kept [] s (s.insertStr text) := kept_insertStr h
  have hset : ∀ pos, Kept [] s (s.setCursor pos) := fun pos => (moved_setCursor h pos).kept h
  have hself : Kept [] s s := kept_self h
  simp only [inputWithKeymap]
  apply firstPressed_induction event hself
  simp only [List.forall_mem_cons, List.not_mem_nil, IsEmpty.forall_iff, implies_true, and_true]
  refine ⟨hinsert _, kept_deleteBackwardWord env h, ?_, kept_deleteBackward env h 1,
    kept_deleteForwardWord env h, kept_deleteForward env h 1, kept_killToBeginningOfLine h,
    kept_killCurrentLine h, kept_killToEndOfLine h, kept_yank h, hset _, hset _,
    (moved_moveCursorLeft env h).kept h, (moved_moveCursorRight env h).kept h,
    (moved_moveCursorUp env h).kept h, (moved_moveCursorDown env h).kept h,
    (moved_moveCursorToBeginningOfLine h _).kept h, (moved_moveCursorToEndOfLine h _).kept h, ?_⟩
  · cases event.code with
    | char c => exact hinsert [c]
    | esc => exact hself
    | other code => exact hself
  · cases event.code with
    | char c =>
      simp only
      split
      · exact hself
      · exact hinsert [c]
    | esc => exact hself
    | other code => exact hself

/-! ### Vim -/

lemma moved_mode (mode : VimMode) (pending : VimPending) (col : Option ℕ) :
    Moved s { s with vimMode := mode, vimPending := pending, preferredCol := col } :=
  ⟨rfl, rfl, h.cursor⟩

omit h

lemma kept_toInsert {s' : TextArea} (h : Kept new s s') : Kept new s s'.toInsert :=
  h.moved (moved_mode h.valid .insert s'.vimPending s'.preferredCol)

variable (h : s.Valid)
include h

variable (op : VimOperator)

lemma kept_applyVimOperatorToRange {range : Range}
    (hrange : range.OnBoundaries s.text) : Kept [] s (s.applyVimOperatorToRange op range) := by
  have hkill := kept_killRange h hrange.start hrange.stop
  cases op with
  | delete => exact hkill
  | yank => exact kept_yankRangeWithKind h range .characterwise
  | change => exact kept_toInsert hkill

lemma kept_applyVimOperator (motion : VimMotion) :
    Kept [] s (s.applyVimOperator env op motion) := by
  rw [applyVimOperator]
  cases hrange : s.rangeForMotion env motion with
  | none => exact kept_self h
  | some range =>
    have hon := onBoundaries_rangeForMotion env h hrange
    cases op with
    | delete => exact kept_killRange h hon.start hon.stop
    | yank => exact kept_yankRangeWithKind h range .characterwise
    | change => exact kept_self h

lemma kept_handleVimTextObject (scope : VimTextObjectScope)
    (event : KeyEvent) : Kept [] s (s.handleVimTextObject env op scope event) := by
  rw [handleVimTextObject]
  split
  · exact kept_self h
  cases s.vimTextObjectForEvent event with
  | none => exact kept_self h
  | some object =>
    simp only
    cases hrange : s.textObjectRange env object scope with
    | none => exact kept_self h
    | some range =>
      exact kept_applyVimOperatorToRange h op (onBoundaries_textObjectRange env hrange)

variable (event : KeyEvent)

lemma kept_handleVimOperator : Kept [] s (s.handleVimOperator env op event) := by
  rw [handleVimOperator]
  split
  · exact kept_killCurrentLine h
  split
  · exact kept_yankCurrentLine h
  split
  · exact kept_self h
  cases s.vimTextObjectScopeForEvent event with
  | some scope => exact (moved_mode h s.vimMode (.textObject op scope) s.preferredCol).kept h
  | none =>
    simp only
    cases if op = .change then none else s.vimMotionForEvent event with
    | some motion => exact kept_applyVimOperator env h op motion
    | none => exact kept_self h

lemma kept_handleVimCommand : Kept [] s (s.handleVimCommand env event) := by
  have hself : Kept [] s s := kept_self h
  have hset : ∀ pos, Kept [] s (s.setCursor pos) := fun pos => (moved_setCursor h pos).kept h
  have hpending : ∀ pending, Kept [] s { s with vimPending := pending } := fun pending =>
    (moved_mode h s.vimMode pending s.preferredCol).kept h
  simp only [handleVimCommand]
  apply firstPressed_induction event hself
  simp only [List.forall_mem_cons, List.not_mem_nil, IsEmpty.forall_iff, implies_true, and_true]
  refine ⟨kept_toInsert hself, kept_toInsert (hset _), kept_toInsert (hset _),
    kept_toInsert (hset _), kept_toInsert (kept_insertThenSet h _ _ _),
    kept_toInsert (kept_insertThenSet h _ _ _), (moved_moveCursorLeft env h).kept h,
    (moved_moveCursorRight env h).kept h, (moved_moveCursorDown env h).kept h,
    (moved_moveCursorUp env h).kept h, hset _, hset _, hset _, hset _, hset _,
    kept_deleteForwardKill env h 1, kept_toInsert ?_, kept_vimKillToEndOfLine h,
    kept_toInsert (kept_vimKillToEndOfLine h), kept_yankCurrentLine h,
    kept_pasteAfterCursor env h, hpending _, hpending _, hpending _, hpending _⟩
  split
  · exact kept_deleteForwardKill env h 1
  · exact hself

lemma kept_handleVimNormal : Kept [] s (s.handleVimNormal env event) := by
  have hmoved := moved_mode h s.vimMode .none s.preferredCol
  have hvalid : Kept [] s _ := hmoved.kept h
  rw [handleVimNormal]
  apply hmoved.then
  cases s.vimPending with
  | none => exact kept_handleVimCommand env hvalid.valid event
  | operator op => exact kept_handleVimOperator env hvalid.valid op event
  | textObject op scope => exact kept_handleVimTextObject env hvalid.valid op scope event

omit h

/-- Escape would leave the cursor at the start of its line, inside an element that reaches over
it. -/
def EscapesIntoElement (env : TextEnv) (s : TextArea) : Prop :=
  s.prevAtomicBoundary env s.cursorPos < s.beginningOfCurrentLine ∧
    s.beginningOfCurrentLine < s.cursorPos ∧
    ∃ e ∈ s.elements, e.range.start < s.beginningOfCurrentLine ∧
      s.beginningOfCurrentLine < e.range.stop

lemma atomic_escapeCursor (h : s.Valid) (hesc : ¬ s.EscapesIntoElement env) :
    Atomic s.text s.elements (s.escapeCursor env) := by
  simp only [escapeCursor]
  split
  · rename_i hbol
    rcases Nat.lt_or_ge (s.prevAtomicBoundary env s.cursorPos) s.beginningOfCurrentLine with
      hlt | hge
    · rw [max_eq_right hlt.le]
      refine ⟨isBoundary_beginningOfLine _, ?_⟩
      intro e he hin
      exact hesc ⟨hlt, hbol, e, he, hin⟩
    · rw [max_eq_left hge]
      exact atomic_prevAtomicBoundary env h.placed _
  · exact h.cursor

lemma moved_enterVimNormalMode (h : s.Valid) : Moved s s.enterVimNormalMode := by
  rw [enterVimNormalMode]
  split
  · exact moved_mode h .normal .none none
  · exact ⟨rfl, rfl, h.cursor⟩

/-- **Every key keeps the elements**, unless it is the Escape that goes into an element. -/
theorem kept_input (h : s.Valid) (event : KeyEvent)
    (hesc : s.vimEnabled = true → s.vimMode = .insert → event.isDown = true →
      event.code = .esc → ¬ s.EscapesIntoElement env) : Kept [] s (s.input env event) := by
  rw [input]
  by_cases hdown : event.isDown = true
  · rw [if_pos hdown]
    by_cases hvim : s.vimEnabled = true
    · rw [if_pos hvim, handleVimInput]
      cases hmode : s.vimMode with
      | normal => exact kept_handleVimNormal env h event
      | insert =>
        simp only [handleVimInsert]
        by_cases hcode : event.code = .esc
        · rw [if_pos hcode]
          have hat := atomic_escapeCursor env h (hesc hvim hmode hdown hcode)
          have hmoved : Moved s { s with cursorPos := s.escapeCursor env } := ⟨rfl, rfl, hat⟩
          have hkept : Kept [] s _ := hmoved.kept h
          exact hkept.moved (moved_enterVimNormalMode hkept.valid)
        · rw [if_neg hcode]
          exact kept_inputWithKeymap env h event s.editorKeymap
    · rw [if_neg hvim]
      exact kept_inputWithKeymap env h event s.editorKeymap
  · rw [if_neg hdown]
    exact kept_self h

end TextArea

end Codex.Tui
