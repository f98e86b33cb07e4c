import Codex.Tui.Elements
import Codex.Lib.Run

/-!
# Runs of editing operations

`Op` lists the operations of the text area, `Op.InDomain` the arguments they are meant for and
`Op.Sound` the states in which they restore the invariant. `Op.Respects` says what an operation
does to the elements: they keep their text, or are removed as a whole, or are unmarked or renamed by
the operation that does so.

* `editing_preserves`: **along every run of sound operations the invariant holds and every
  operation respects the elements**;
* `editing_fails`: an element marked around the cursor breaks the invariant.

Each operation has its lemma in the modules before; a run is an induction over its operations.
-/

namespace Codex.Tui

open Codex.Lib
open String (utf8Len)

/-- The operations of the text area. -/
inductive Op where
  | setKeymapBindings (keymap : RuntimeKeymap)
  | setTextClearingElements (text : Text)
  | setTextWithElements (text : Text) (elements : List Range)
  | setVimEnabled (enabled : Bool)
  | enterVimInsertMode
  | enterVimNormalMode
  | insertStr (text : Text)
  | insertStrAt (pos : ℕ) (text : Text)
  | replaceRange (range : Range) (text : Text)
  | setCursor (pos : ℕ)
  | wrappedLines (width : ℕ)
  | input (event : KeyEvent)
  | inputWithKeymap (event : KeyEvent) (keymap : EditorKeymap)
  | deleteBackward (n : ℕ)
  | deleteForward (n : ℕ)
  | deleteForwardKill (n : ℕ)
  | deleteBackwardWord
  | deleteForwardWord
  | killToEndOfLine
  | killToBeginningOfLine
  | yank
  | moveCursorLeft
  | moveCursorRight
  | moveCursorUp
  | moveCursorDown
  | moveCursorToBeginningOfLine (moveUpAtBol : Bool)
  | moveCursorToEndOfLine (moveDownAtEol : Bool)
  | replaceElementPayload (old new : Text)
  | insertElement (text : Text)
  | addElementRange (range : Range)
  | removeElementRange (range : Range)

namespace TextArea

variable (env : TextEnv) (s : TextArea)

/-- One operation. -/
def apply : Op → TextArea
  | .setKeymapBindings keymap => s.setKeymapBindings keymap
  | .setTextClearingElements text => s.setTextClearingElements text
  | .setTextWithElements text elements => s.setTextWithElements text elements
  | .setVimEnabled enabled => s.setVimEnabled enabled
  | .enterVimInsertMode => s.enterVimInsertMode
  | .enterVimNormalMode => s.enterVimNormalMode
  | .insertStr text => s.insertStr text
  | .insertStrAt pos text => s.insertStrAt pos text
  | .replaceRange range text => s.replaceRange range text
  | .setCursor pos => s.setCursor pos
  | .wrappedLines width => s.wrappedLines env width
  | .input event => s.input env event
  | .inputWithKeymap event keymap => s.inputWithKeymap env event keymap
  | .deleteBackward n => s.deleteBackward env n
  | .deleteForward n => s.deleteForward env n
  | .deleteForwardKill n => s.deleteForwardKill env n
  | .deleteBackwardWord => s.deleteBackwardWord env
  | .deleteForwardWord => s.deleteForwardWord env
  | .killToEndOfLine => s.killToEndOfLine
  | .killToBeginningOfLine => s.killToBeginningOfLine
  | .yank => s.yank
  | .moveCursorLeft => s.moveCursorLeft env
  | .moveCursorRight => s.moveCursorRight env
  | .moveCursorUp => s.moveCursorUp env
  | .moveCursorDown => s.moveCursorDown env
  | .moveCursorToBeginningOfLine moveUpAtBol => s.moveCursorToBeginningOfLine moveUpAtBol
  | .moveCursorToEndOfLine moveDownAtEol => s.moveCursorToEndOfLine moveDownAtEol
  | .replaceElementPayload old new => (s.replaceElementPayload old new).1
  | .insertElement text => (s.insertElement text).1
  | .addElementRange range => (s.addElementRange range).1
  | .removeElementRange range => (s.removeElementRange range).1

end TextArea

namespace Op

/-- The arguments an operation is meant for: a range to replace is one of character boundaries, and
elements given with a text are disjoint, in bounds and nonempty. -/
def InDomain (s : TextArea) : Op → Prop
  | .replaceRange range _ => range.OnBoundaries s.text ∧ range.start ≤ range.stop
  | .setTextWithElements text elements =>
    elements.Pairwise Range.Apart ∧ ∀ r ∈ elements, r.start < r.stop ∧ r.stop ≤ utf8Len text
  | _ => True

/-- The condition under which an operation restores the invariant: an element is not marked around
the cursor, none is made or renamed to be empty, and Escape in Vim's insert mode does not go to a
start of line inside an element. -/
def Sound (env : TextEnv) (s : TextArea) : Op → Prop
  | .addElementRange range =>
    ((s.clampRange range).start < s.cursorPos ∧ s.cursorPos < (s.clampRange range).stop) →
      ∃ e ∈ s.elements, ¬ e.range.Apart (s.clampRange range)
  | .insertElement text => text ≠ []
  | .replaceElementPayload old new => new ≠ [] ∨ ∀ e ∈ s.elements, s.payload e ≠ some old
  | .input event =>
    s.vimEnabled = true → s.vimMode = .insert → event.isDown = true → event.code = .esc →
      ¬ s.EscapesIntoElement env
  | _ => True

/-- The text that an operation puts in place of what it removes. -/
def replacement : Op → Text
  | .replaceRange _ text => text
  | .setTextClearingElements text => text
  | .setTextWithElements text _ => text
  | _ => []

/-- The element is one that the operation makes. -/
def Makes (s s' : TextArea) (e' : TextElement) : Op → Prop
  | .insertElement text =>
    e'.id = s.nextElementId ∧ slice s'.text e'.range.start e'.range.stop = text
  | .addElementRange range => e'.id = s.nextElementId ∧ e'.range = s.clampRange range
  | .setTextWithElements _ elements => ∃ r ∈ elements, e'.range = s'.clampRange r
  | _ => False

/-- The element is the one that the operation renames. -/
def Renames (s s' : TextArea) (e e' : TextElement) : Op → Prop
  | .replaceElementPayload old new =>
    e'.id = e.id ∧ slice s.text e.range.start e.range.stop = old ∧
      slice s'.text e'.range.start e'.range.stop = new
  | _ => False

/-- The element is unmarked, over the same text. -/
def Unmarks (s s' : TextArea) (e : TextElement) : Op → Prop
  | .removeElementRange range => s'.text = s.text ∧ e.range = s.clampRange range
  | _ => False

/-- What an operation does to the elements: those of the new state were there with the same text or
are made or renamed by the operation, and those of the old state are still there with the same text
or removed with all of it, unmarked or renamed. -/
structure Respects (s s' : TextArea) (op : Op) : Prop where
  origin : ∀ e' ∈ s'.elements, (∃ e ∈ s.elements, TextArea.Keeps s s' e e') ∨
    op.Makes s s' e' ∨ ∃ e ∈ s.elements, op.Renames s s' e e'
  whole : ∀ e ∈ s.elements, (∃ e' ∈ s'.elements, TextArea.Keeps s s' e e') ∨
    TextArea.RemovedWhole op.replacement s s' e ∨ op.Unmarks s s' e ∨
    ∃ e' ∈ s'.elements, op.Renames s s' e e'

lemma Respects.of_kept {s s' : TextArea} {op : Op} (h : TextArea.Kept op.replacement s s') :
    op.Respects s s' :=
  ⟨fun e' he' => .inl (h.origin e' he'), fun e he => (h.whole e he).imp_right .inl⟩

end Op

namespace TextArea

variable {env : TextEnv} {s : TextArea}

/-! ### The operations on elements -/

lemma valid_setTextInner (text : Text) (ranges : Option (List Range))
    (hranges : ∀ l ∈ ranges, l.Pairwise Range.Apart) :
    (s.setTextInner text ranges).Valid ∧ (s.setTextInner text ranges).text = text ∧
      ∀ e ∈ (s.setTextInner text ranges).elements,
        ∃ l ∈ ranges, ∃ r ∈ l, e.range = (s.setTextInner text ranges).clampRange r := by
  cases ranges with
  | none =>
    have hplaced := placed_nil text
    exact ⟨⟨hplaced, atomic_clampPosOutOfElements hplaced _⟩, rfl,
      fun e he => absurd he List.not_mem_nil⟩
  | some l =>
    simp only [setTextInner]
    generalize hcleared : ({ s with
      text := text
      cursorPos := min s.cursorPos (utf8Len text)
      elements := [] } : TextArea) = cleared
    have htext : cleared.text = text := by rw [← hcleared]
    have hnil : cleared.elements = [] := by rw [← hcleared]
    obtain ⟨hpushed, hmap⟩ := ranges_pushElements (s := cleared) l
    have hscattered := scattered_pushElements hnil (hranges l rfl)
    rw [hnil, List.map_nil, List.nil_append] at hmap
    generalize l.foldl pushElement cleared = pushed at hpushed hmap hscattered
    have hplaced : Placed pushed.text (sortElements pushed.elements) := by
      rw [hpushed]
      exact placed_sortElements hscattered
    refine ⟨⟨hplaced, atomic_clampPosOutOfElements hplaced _⟩, hpushed.trans htext, ?_⟩
    intro e he
    have hmem : e.range ∈ pushed.elements.map (·.range) :=
      List.mem_map_of_mem (mem_sortElements.mp he)
    rw [hmap] at hmem
    obtain ⟨r, hr, heq⟩ := List.mem_map.mp (List.mem_filter.mp hmem).1
    refine ⟨l, rfl, r, hr, ?_⟩
    rw [← heq]
    simp only [clampRange, clampPosToCharBoundary, hpushed]

lemma removedWhole_all (h : s.Valid) {s' : TextArea} {e : TextElement} (he : e ∈ s.elements) :
    RemovedWhole s'.text s s' e := by
  refine ⟨[], s.text, [], ?_, ?_, Nat.zero_le _, ?_⟩
  · simp
  · simp
  · have := (h.placed.stop e he).le
    rw [String.utf8Len_nil]
    omega

lemma respects_setTextClearingElements (h : s.Valid) (text : Text) :
    (s.setTextClearingElements text).Valid ∧
      Op.Respects s (s.setTextClearingElements text) (.setTextClearingElements text) := by
  have hnone : ∀ l ∈ (none : Option (List Range)), l.Pairwise Range.Apart := fun l hl =>
    absurd hl.symm (Option.some_ne_none l)
  obtain ⟨hvalid, htext, -⟩ := valid_setTextInner (s := s) text none hnone
  refine ⟨hvalid, fun e' he' => absurd he' List.not_mem_nil, ?_⟩
  intro e he
  have hremoved : RemovedWhole (s.setTextClearingElements text).text s
    (s.setTextClearingElements text) e := removedWhole_all h he
  exact .inr (.inl hremoved)

lemma respects_setTextWithElements (h : s.Valid) (text : Text) {ranges : List Range}
    (hranges : ranges.Pairwise Range.Apart) :
    (s.setTextWithElements text ranges).Valid ∧
      Op.Respects s (s.setTextWithElements text ranges) (.setTextWithElements text ranges) := by
  have hsome : ∀ l ∈ some ranges, l.Pairwise Range.Apart := by
    intro l hl
    cases hl
    exact hranges
  obtain ⟨hvalid, htext, hmade⟩ := valid_setTextInner (s := s) text (some ranges) hsome
  refine ⟨hvalid, ?_, ?_⟩
  · intro e' he'
    obtain ⟨l, hl, r, hr, heq⟩ := hmade e' he'
    cases hl
    exact .inr (.inl ⟨r, hr, heq⟩)
  · intro e he
    have hremoved : RemovedWhole (s.setTextWithElements text ranges).text s
      (s.setTextWithElements text ranges) e := removedWhole_all h he
    rw [show (s.setTextWithElements text ranges).text = text from htext] at hremoved
    exact .inr (.inl hremoved)

/-- A step over the same text that keeps every element and makes one. -/
theorem respects_addElement {s' : TextArea} {op : Op} {range : Range} (htext : s'.text = s.text)
    (helements : ∀ e, e ∈ s'.elements ↔ e ∈ s.elements ∨ e = ⟨s.nextElementId, range⟩)
    (hmakes : op.Makes s s' ⟨s.nextElementId, range⟩) : op.Respects s s' := by
  have hkeeps : ∀ e, Keeps s s' e e := fun e => ⟨rfl, by rw [htext]⟩
  constructor
  · intro e' he'
    rcases (helements e').mp he' with he | rfl
    · exact .inl ⟨e', he, hkeeps e'⟩
    · exact .inr (.inl hmakes)
  · intro e he
    exact .inl ⟨e, (helements e).mpr (.inl he), hkeeps e⟩

lemma respects_addElementRange (h : s.Valid) {range : Range}
    (hsound : (Op.addElementRange range).Sound env s) :
    (s.addElementRange range).1.Valid ∧
      Op.Respects s (s.addElementRange range).1 (.addElementRange range) := by
  have hself : Op.Respects s s (.addElementRange range) := .of_kept (kept_self h)
  simp only [addElementRange]
  by_cases hempty : (s.clampRange range).stop ≤ (s.clampRange range).start
  · rw [if_pos hempty]
    exact ⟨h, hself⟩
  rw [if_neg hempty]
  split
  · exact ⟨h, hself⟩
  split
  · exact ⟨h, hself⟩
  · rename_i hoverlap
    have hapart : ∀ f ∈ s.elements, f.range.Apart (s.clampRange range) := by
      intro f hf
      by_contra hnot
      apply hoverlap
      rw [List.any_eq_true]
      refine ⟨f, hf, decide_eq_true ?_⟩
      rw [Range.Apart] at hnot
      omega
    refine ⟨?_, respects_addElement rfl (fun e => mem_addElement) ⟨rfl, rfl⟩⟩
    apply valid_addElement h (by omega) (onBoundaries_clampRange range) hapart
    intro hin
    obtain ⟨f, hf, hnot⟩ := hsound hin
    exact hnot (hapart f hf)

lemma insertStrAt_of_atomic {pos : ℕ} (h : Atomic s.text s.elements pos) (text : Text) :
    (s.insertStrAt pos text).text = splice s.text pos pos text ∧
      (s.insertStrAt pos text).elements = shiftAll pos (pos - pos) (utf8Len text) s.elements := by
  rw [Nat.sub_self]
  simp only [insertStrAt, clampPosForInsertion, clampPosOutOfElements_of_atomic h]
  exact ⟨rfl, rfl⟩

variable (h : s.Valid)
include h

lemma respects_insertElement {text : Text} (hne : text ≠ []) :
    (s.insertElement text).1.Valid ∧
      Op.Respects s (s.insertElement text).1 (.insertElement text) := by
  have hat := atomic_clampPosOutOfElements h.placed s.cursorPos
  simp only [insertElement, clampPosForInsertion]
  generalize s.clampPosOutOfElements s.cursorPos = start at hat ⊢
  have hkept : Kept [] s (s.insertStrAt start text) := kept_insertStrAt h start text
  obtain ⟨htext, helements⟩ := insertStrAt_of_atomic hat text
  have hid : (s.insertStrAt start text).nextElementId = s.nextElementId := rfl
  generalize s.insertStrAt start text = inserted at hkept htext helements hid ⊢
  have hb := hat.boundary
  have hlen : 0 < utf8Len text := by
    rw [Nat.pos_iff_ne_zero]
    exact fun hzero => hne (String.utf8Len_eq_zero.mp hzero)
  have hapart : ∀ f ∈ inserted.elements, f.range.Apart ⟨start, start + utf8Len text⟩ := by
    intro f hf
    rw [helements] at hf
    obtain ⟨e, he, ⟨hbefore, rfl⟩ | ⟨hafter, rfl⟩⟩ :=
      (mem_shiftAll h.placed le_rfl (uncut_of_atomic hat)).mp hf
    · exact .inl hbefore
    · refine .inr ?_
      simp only [moveElement]
      omega
  have hon : Range.OnBoundaries inserted.text ⟨start, start + utf8Len text⟩ := by
    rw [htext]
    exact ⟨isBoundary_splice_of_le hb hb le_rfl hb le_rfl, isBoundary_splice_new hb hb le_rfl⟩
  have hscattered : Scattered inserted.text
      (inserted.elements ++ [⟨inserted.nextElementId, ⟨start, start + utf8Len text⟩⟩]) := by
    apply scattered_append hkept.valid.placed.scattered _ hon hapart
    simpa using hlen
  have hplaced := placed_sortElements hscattered
  refine ⟨⟨hplaced, atomic_clampPosOutOfElements hplaced _⟩, ?_, ?_⟩
  · intro e' he'
    rcases mem_addElement.mp he' with he' | rfl
    · exact .inl (hkept.origin e' he')
    · refine .inr (.inl ⟨hid, ?_⟩)
      simp only [setCursor, addElement, htext]
      exact slice_splice_new hb hb le_rfl
  · intro e he
    rcases hkept.whole e he with ⟨e', he', hkeeps⟩ | hremoved
    · exact .inl ⟨e', mem_addElement.mpr (.inl he'), hkeeps⟩
    · exact .inr (.inl hremoved)

lemma respects_replaceElementPayload {old new : Text}
    (hsound : (Op.replaceElementPayload old new).Sound env s) :
    (s.replaceElementPayload old new).1.Valid ∧
      Op.Respects s (s.replaceElementPayload old new).1 (.replaceElementPayload old new) := by
  rcases replaceElementPayload_cases h old new with ⟨-, hsame⟩ |
    ⟨l, found, l', hsplit, hslice, htext, helements, hcursor⟩
  · rw [hsame]
    exact ⟨h, .of_kept (kept_self h)⟩
  have hplaced := h.placed
  rw [hsplit] at hplaced
  have hmem : found ∈ s.elements := by rw [hsplit]; simp
  have hne : new ≠ [] := by
    rcases hsound with hne | hnone
    · exact hne
    · refine absurd ?_ (hnone found hmem)
      rw [payload, if_pos ⟨(h.placed.nonempty found hmem).le, h.placed.start found hmem,
        h.placed.stop found hmem⟩, hslice]
  have hrenamed := placed_renamed hplaced hne
  generalize (s.replaceElementPayload old new).1 = s' at htext helements hcursor ⊢
  have hstart := h.placed.start found hmem
  have hstop := h.placed.stop found hmem
  have hle := (h.placed.nonempty found hmem).le
  obtain ⟨hbefore, hafter⟩ := placed_sides hplaced
  -- before the element nothing moves, after it everything moves by the difference of the lengths
  have hkeepl : ∀ e ∈ l, Keeps s s' e e := by
    intro e he
    have hes : e ∈ s.elements := by rw [hsplit]; simp [he]
    refine ⟨rfl, ?_⟩
    rw [htext]
    exact slice_splice_of_le hstart hstop hle (h.placed.start e hes) (h.placed.stop e hes)
      (h.placed.nonempty e hes).le (hbefore e he)
  have hkeepl' : ∀ e ∈ l',
      Keeps s s' e (moveElement (found.range.stop - found.range.start) (utf8Len new) e) := by
    intro e he
    have hes : e ∈ s.elements := by rw [hsplit]; simp [he]
    refine ⟨rfl, ?_⟩
    rw [htext]
    exact slice_splice_of_ge hstart hstop hle (h.placed.start e hes) (h.placed.stop e hes)
      (h.placed.nonempty e hes).le (hafter e he)
  have hrename : (Op.replaceElementPayload old new).Renames s s' found
      { found with range := ⟨found.range.start, found.range.start + utf8Len new⟩ } := by
    refine ⟨rfl, hslice, ?_⟩
    rw [htext]
    exact slice_splice_new hstart hstop hle
  refine ⟨⟨?_, hcursor hne⟩, ?_, ?_⟩
  · rw [htext, helements]
    exact placed_sortElements hrenamed.scattered
  · intro e' he'
    rw [helements, mem_sortElements, List.mem_append, List.mem_cons] at he'
    rcases he' with he' | rfl | he'
    · exact .inl ⟨e', by rw [hsplit]; simp [he'], hkeepl e' he'⟩
    · exact .inr (.inr ⟨found, hmem, hrename⟩)
    · obtain ⟨e, he, rfl⟩ := List.mem_map.mp he'
      exact .inl ⟨e, by rw [hsplit]; simp [he], hkeepl' e he⟩
  · intro e he
    rw [hsplit, List.mem_append, List.mem_cons] at he
    simp only [helements, mem_sortElements, List.mem_append, List.mem_cons, List.mem_map]
    rcases he with he | rfl | he
    · exact .inl ⟨e, .inl he, hkeepl e he⟩
    · exact .inr (.inr (.inr ⟨_, .inr (.inl rfl), hrename⟩))
    · exact .inl ⟨_, .inr (.inr ⟨e, he, rfl⟩), hkeepl' e he⟩

lemma respects_removeElementRange (range : Range) :
    (s.removeElementRange range).1.Valid ∧
      Op.Respects s (s.removeElementRange range).1 (.removeElementRange range) := by
  have hself : Op.Respects s s (.removeElementRange range) := .of_kept (kept_self h)
  simp only [removeElementRange]
  split
  · exact ⟨h, hself⟩
  · refine ⟨⟨h.placed.sublist List.filter_sublist, h.cursor.boundary, ?_⟩, ?_, ?_⟩
    · exact fun e he => h.cursor.outside e (List.mem_of_mem_filter he)
    · exact fun e he => .inl ⟨e, List.mem_of_mem_filter he, rfl, rfl⟩
    · intro e he
      by_cases heq : e.range = s.clampRange range
      · exact .inr (.inr (.inl ⟨rfl, heq⟩))
      · refine .inl ⟨e, List.mem_filter.mpr ⟨he, ?_⟩, rfl, rfl⟩
        rw [decide_eq_false heq]
        rfl

/-! ### One operation and whole runs -/

lemma moved_wrappedLines (width : ℕ) : Moved s (s.wrappedLines env width) := by
  have hsame : Moved s s := ⟨rfl, rfl, h.cursor⟩
  have hdrawn : Moved s { s with wrapCache := some ⟨width, env.wrapRanges width s.text⟩ } :=
    ⟨rfl, rfl, h.cursor⟩
  rw [wrappedLines]
  split
  · split
    · exact hsame
    · exact hdrawn
  · exact hdrawn

lemma moved_enterVimInsertMode : Moved s s.enterVimInsertMode := by
  rw [enterVimInsertMode]
  split
  · exact moved_mode h .insert .none s.preferredCol
  · exact ⟨rfl, rfl, h.cursor⟩

/-- **A sound operation restores the invariant and respects the elements.** -/
theorem apply_respects (op : Op) (hdomain : op.InDomain s) (hsound : op.Sound env s) :
    (s.apply env op).Valid ∧ op.Respects s (s.apply env op) := by
  have kept : ∀ {s' : TextArea}, Kept op.replacement s s' → s'.Valid ∧ op.Respects s s' :=
    fun hkept => ⟨hkept.valid, .of_kept hkept⟩
  have moved : ∀ {s' : TextArea}, Moved s s' → s'.Valid ∧ op.Respects s s' :=
    fun hmoved => kept (hmoved.kept h)
  cases op with
  | setKeymapBindings keymap => exact moved ⟨rfl, rfl, h.cursor⟩
  | setTextClearingElements text => exact respects_setTextClearingElements h text
  | setTextWithElements text elements => exact respects_setTextWithElements h text hdomain.1
  | setVimEnabled enabled => exact moved ⟨rfl, rfl, h.cursor⟩
  | enterVimInsertMode => exact moved (moved_enterVimInsertMode h)
  | enterVimNormalMode => exact moved (moved_enterVimNormalMode h)
  | insertStr text => exact kept (kept_insertStr h text)
  | insertStrAt pos text => exact kept (kept_insertStrAt h pos text)
  | replaceRange range text =>
    exact kept (kept_replaceRange h hdomain.1.start hdomain.1.stop hdomain.2)
  | setCursor pos => exact moved (moved_setCursor h pos)
  | wrappedLines width => exact moved (moved_wrappedLines h width)
  | input event => exact kept (kept_input env h event hsound)
  | inputWithKeymap event keymap => exact kept (kept_inputWithKeymap env h event keymap)
  | deleteBackward n => exact kept (kept_deleteBackward env h n)
  | deleteForward n => exact kept (kept_deleteForward env h n)
  | deleteForwardKill n => exact kept (kept_deleteForwardKill env h n)
  | deleteBackwardWord => exact kept (kept_deleteBackwardWord env h)
  | deleteForwardWord => exact kept (kept_deleteForwardWord env h)
  | killToEndOfLine => exact kept (kept_killToEndOfLine h)
  | killToBeginningOfLine => exact kept (kept_killToBeginningOfLine h)
  | yank => exact kept (kept_yank h)
  | moveCursorLeft => exact moved (moved_moveCursorLeft env h)
  | moveCursorRight => exact moved (moved_moveCursorRight env h)
  | moveCursorUp => exact moved (moved_moveCursorUp env h)
  | moveCursorDown => exact moved (moved_moveCursorDown env h)
  | moveCursorToBeginningOfLine up => exact moved (moved_moveCursorToBeginningOfLine h up)
  | moveCursorToEndOfLine down => exact moved (moved_moveCursorToEndOfLine h down)
  | replaceElementPayload old new => exact respects_replaceElementPayload h hsound
  | insertElement text => exact respects_insertElement h hsound
  | addElementRange range => exact respects_addElementRange h hsound
  | removeElementRange range => exact respects_removeElementRange h range

omit h

lemma valid_new (defaults : RuntimeKeymap) : (new defaults).Valid :=
  ⟨placed_nil [], atomic_zero [] []⟩

/-- **Along every run of sound operations** on a new text area the invariant holds before and after
every operation, and every operation respects the elements. -/
theorem editing_preserves (env : TextEnv) (defaults : RuntimeKeymap) (ops : List Op)
    (h : Throughout (apply env) (fun s op => op.InDomain s ∧ op.Sound env s) (new defaults) ops) :
    Throughout (apply env)
        (fun s op => s.Valid ∧ (s.apply env op).Valid ∧ op.Respects s (s.apply env op))
        (new defaults) ops ∧
      (ops.foldl (apply env) (new defaults)).Valid := by
  have hstep : ∀ (s : TextArea) (op : Op), (op.InDomain s ∧ op.Sound env s) → s.Valid →
      (s.Valid ∧ (s.apply env op).Valid ∧ op.Respects s (s.apply env op)) ∧
        (s.apply env op).Valid := by
    rintro s op ⟨hdomain, hsound⟩ hvalid
    obtain ⟨hnext, hrespects⟩ := apply_respects hvalid op hdomain hsound
    exact ⟨⟨hvalid, hnext, hrespects⟩, hnext⟩
  refine ⟨h.imp hstep (valid_new defaults), ?_⟩
  exact h.preserves (fun s op hop hvalid => (hstep s op hop hvalid).2) (valid_new defaults)

/-! ### Runs on fixed inputs -/

lemma flatten_map_singleton (text : Text) : (text.map fun c => [c]).flatten = text := by
  induction text with
  | nil => rfl
  | cons c text ih => rw [List.map_cons, List.flatten_cons, ih, List.singleton_append]

/-- Every character is a grapheme and a word segment of its own. -/
def charEnv : TextEnv where
  graphemes text := text.map fun c => [c]
  graphemes_flatten := flatten_map_singleton
  wordBounds text := text.map fun c => [c]
  wordBounds_flatten := flatten_map_singleton
  width := List.length
  wrapRanges _ text := [(0, utf8Len text + 1)]
  windows := false

/-- A keymap without bindings. -/
def noBindings : RuntimeKeymap where
  editor := by constructor <;> exact fun _ => false
  vimNormal := by constructor <;> exact fun _ => false
  vimOperator := by constructor <;> exact fun _ => false
  vimTextObject := by constructor <;> exact fun _ => false

/-- An element is inserted and stepped over, and the text before it deleted. -/
def insertAndStepOver : List Op :=
  [.insertStr "ab".toList, .insertElement "[Image]".toList, .moveCursorLeft, .deleteBackward 1]

theorem editing_preserves_insertAndStepOver :
    (insertAndStepOver.foldl (apply charEnv) (new noBindings)).Valid :=
  (editing_preserves charEnv noBindings insertAndStepOver
    ⟨⟨trivial, trivial⟩, ⟨trivial, List.cons_ne_nil _ _⟩, ⟨trivial, trivial⟩, ⟨trivial, trivial⟩,
      trivial⟩).2

/-- The run is one of operations in their domain, and it breaks the invariant. -/
def Breaks (ops : List Op) : Prop :=
  Throughout (apply charEnv) (fun s op => op.InDomain s) (new noBindings) ops ∧
    ¬ (ops.foldl (apply charEnv) (new noBindings)).Valid

/-- An element marked around the cursor, an empty element made or left by a renaming, and Escape
after an element that holds a newline. -/
theorem editing_fails :
    Breaks [.setTextClearingElements "hello".toList, .setCursor 3, .addElementRange ⟨0, 5⟩] ∧
    Breaks [.insertElement []] ∧
    Breaks [.insertElement ['x'], .replaceElementPayload ['x'] []] ∧
    Breaks [.insertElement "a\nb".toList, .setVimEnabled true, .enterVimInsertMode,
      .input ⟨.esc, .none, .press⟩] := by
  refine ⟨⟨⟨trivial, trivial, trivial, trivial⟩, ?_⟩, ⟨⟨trivial, trivial⟩, ?_⟩,
    ⟨⟨trivial, trivial, trivial⟩, ?_⟩, ⟨⟨trivial, trivial, trivial, trivial, trivial⟩, ?_⟩⟩
  · intro h
    exact h.cursor.outside ⟨1, ⟨0, 5⟩⟩ (by decide +kernel) (by decide +kernel)
  · intro h
    cases h.placed.nonempty ⟨1, ⟨0, 0⟩⟩ (by decide +kernel)
  · intro h
    cases h.placed.nonempty ⟨1, ⟨0, 0⟩⟩ (by decide +kernel)
  · intro h
    exact h.cursor.outside ⟨1, ⟨0, 3⟩⟩ (by decide +kernel) (by decide +kernel)

end TextArea

end Codex.Tui
