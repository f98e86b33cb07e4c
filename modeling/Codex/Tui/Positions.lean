import Codex.Tui.Edits

/-!
# Line, word and text object positions are boundaries

Every position that the lines, the words and the Vim text objects of a valid text area yield is a
character boundary of its text, so the ranges that commands kill are ranges of whole characters.

* `isBoundary_beginningOfPreviousWord`, `isBoundary_endOfNextWord`: the words;
* `onBoundaries_currentLine`, `onBoundaries_rangeForMotion`, `onBoundaries_textObjectRange`: the
  ranges of whole lines, of motions and of text objects.
-/

namespace Codex.Tui

open Codex.Lib
open String (utf8Len)

/-- Both ends of the range are character boundaries of the text. -/
structure Range.OnBoundaries (text : Text) (range : Range) : Prop where
  start : IsBoundary text range.start
  stop : IsBoundary text range.stop

namespace TextArea

variable (env : TextEnv) {s : TextArea}

/-! ### Lines -/

lemma newline_size : ('\n').utf8Size = 1 := rfl

lemma isBoundary_beginningOfLine (pos : ℕ) : IsBoundary s.text (s.beginningOfLine pos) := by
  rw [beginningOfLine]
  cases hfind : rfindByte (· == '\n') (takeBytes pos s.text) with
  | none => exact isBoundary_zero _
  | some found =>
    obtain ⟨hat, hc⟩ := rfindByte_eq_some hfind
    have hright := hat.right.of_takeBytes
    rwa [beq_iff_eq.mp hc, newline_size] at hright

variable {range : Range} {scope : VimTextObjectScope} {pos : ℕ} {openChar closeChar : Char}

/-- The start of a line other than the first comes after a newline. -/
theorem isBoundary_beginningOfLine_pred (h : 0 < s.beginningOfLine pos) :
    IsBoundary s.text (s.beginningOfLine pos - 1) := by
  rw [beginningOfLine] at h ⊢
  cases hfind : rfindByte (· == '\n') (takeBytes pos s.text) with
  | none =>
    rw [hfind] at h
    exact absurd h (Nat.lt_irrefl 0)
  | some found =>
    obtain ⟨hat, -⟩ := rfindByte_eq_some hfind
    exact hat.left.of_takeBytes

lemma isBoundary_endOfLine (hpos : IsBoundary s.text pos) :
    IsBoundary s.text (s.endOfLine pos) := by
  rw [endOfLine]
  cases hfind : findByte (· == '\n') (dropBytes pos s.text) with
  | none => exact isBoundary_utf8Len _
  | some i =>
    obtain ⟨c, hat, -⟩ := findByte_eq_some hfind
    have hleft := hpos.add hat.left
    rwa [Nat.add_comm] at hleft

/-- The end of a line other than the last is a newline. -/
theorem isBoundary_endOfLine_succ (hpos : IsBoundary s.text pos)
    (h : s.endOfLine pos < utf8Len s.text) : IsBoundary s.text (s.endOfLine pos + 1) := by
  rw [endOfLine] at h ⊢
  cases hfind : findByte (· == '\n') (dropBytes pos s.text) with
  | none =>
    rw [hfind] at h
    exact absurd h (Nat.lt_irrefl _)
  | some i =>
    obtain ⟨c, hat, hc⟩ := findByte_eq_some hfind
    have hright := hpos.add hat.right
    rw [beq_iff_eq.mp hc, newline_size] at hright
    rwa [show pos + (i + 1) = i + pos + 1 by omega] at hright

lemma onBoundaries_currentLine (h : s.Valid) :
    s.currentLineRangeWithNewline.OnBoundaries s.text := by
  refine ⟨isBoundary_beginningOfLine _, ?_⟩
  have hpos := h.cursor.boundary
  simp only [currentLineRangeWithNewline]
  split
  · exact isBoundary_endOfLine_succ hpos ‹_›
  · exact isBoundary_endOfLine hpos

/-! ### Words -/

lemma exists_of_mem_withOffsets {pieces : List Text} {offset i : ℕ} {piece : Text}
    (h : (i, piece) ∈ withOffsets offset pieces) :
    ∃ a b, pieces.flatten = a ++ piece ++ b ∧ i = offset + utf8Len a := by
  induction pieces generalizing offset with
  | nil => cases h
  | cons first pieces ih =>
    rw [withOffsets, List.mem_cons] at h
    rcases h with h | h
    · cases h
      exact ⟨[], pieces.flatten, rfl, rfl⟩
    · obtain ⟨a, b, hab, rfl⟩ := ih h
      refine ⟨first ++ a, b, ?_, ?_⟩
      · rw [List.flatten_cons, hab]
        simp only [List.append_assoc]
      · rw [String.utf8Len_append]
        omega

lemma flatten_segments (run : Text) :
    ((env.wordBounds run).flatMap segmentPieces).flatten = run := by
  have hflat : ∀ segments : List Text,
      (segments.flatMap segmentPieces).flatten = segments.flatten := by
    intro segments
    induction segments with
    | nil => rfl
    | cons segment segments ih =>
      rw [List.flatMap_cons, List.flatten_append, ih, List.flatten_cons, segmentPieces,
        List.flatten_splitBy]
  rw [hflat, env.wordBounds_flatten]

/-- A word piece starts and ends on boundaries of the run. -/
theorem isBoundary_splitWordPieces {run piece : Text} {i : ℕ}
    (h : (i, piece) ∈ splitWordPieces env run) :
    IsBoundary run i ∧ IsBoundary run (i + utf8Len piece) := by
  obtain ⟨a, b, hab, rfl⟩ := exists_of_mem_withOffsets h
  rw [flatten_segments] at hab
  rw [hab, Nat.zero_add]
  constructor
  · rw [List.append_assoc]
    exact isBoundary_utf8Len_append ..
  · rw [← String.utf8Len_append]
    exact isBoundary_utf8Len_append ..

lemma isBoundary_runStartBefore (text : Text) (offset : ℕ) :
    IsBoundary text (runStartBefore text offset) := by
  rw [runStartBefore]
  cases hws : rfindByte isWhitespace (takeBytes offset text) with
  | none => exact isBoundary_zero _
  | some found => exact (rfindByte_eq_some hws).1.right.of_takeBytes

lemma mem_of_getLast?_separatorPieces {pieces : List (ℕ × Text)} {piece : ℕ × Text}
    (h : (separatorPieces pieces).getLast? = some piece) : piece ∈ pieces :=
  List.takeWhile_subset _ (List.mem_of_getLast? h)

variable (h : s.Valid)
include h

lemma isBoundary_adjustPosOutOfElements (hpos : IsBoundary s.text pos)
    (preferStart : Bool) : IsBoundary s.text (s.adjustPosOutOfElements pos preferStart) :=
  (atomic_adjustPosOutOfElements h.placed hpos preferStart).boundary

lemma isBoundary_beginningOfPreviousWord : IsBoundary s.text (s.beginningOfPreviousWord env) := by
  simp only [beginningOfPreviousWord]
  cases hfirst : rfindByte (fun c => !isWhitespace c) (takeBytes s.cursorPos s.text) with
  | none => exact isBoundary_zero _
  | some first =>
    have hstart := isBoundary_runStartBefore (takeBytes s.cursorPos s.text) first.1
    simp only
    generalize runStartBefore (takeBytes s.cursorPos s.text) first.1 = runStart at hstart ⊢
    cases hpieces : (splitWordPieces env (slice (takeBytes s.cursorPos s.text) runStart
        (first.1 + first.2.utf8Size))).reverse with
    | nil => exact hstart.of_takeBytes
    | cons piece pieces =>
      have hmem : ∀ p ∈ piece :: pieces, IsBoundary s.text (runStart + p.1) := by
        intro p hp
        rw [← hpieces, List.mem_reverse] at hp
        exact (hstart.add_slice (isBoundary_splitWordPieces env hp).1).of_takeBytes
      apply isBoundary_adjustPosOutOfElements h
      split
      · cases hlast : (separatorPieces pieces).getLast? with
        | none => exact hmem piece List.mem_cons_self
        | some last =>
          exact hmem last (List.mem_cons_of_mem _ (mem_of_getLast?_separatorPieces hlast))
      · exact hmem piece List.mem_cons_self

lemma isBoundary_endOfNextWordFrom (hpos : IsBoundary s.text pos) :
    IsBoundary s.text (s.endOfNextWordFrom env pos) := by
  simp only [endOfNextWordFrom]
  cases hfirst : findByte (fun c => !isWhitespace c) (dropBytes pos s.text) with
  | none => exact isBoundary_utf8Len _
  | some first =>
    simp only
    obtain ⟨c, hat, -⟩ := findByte_eq_some hfirst
    generalize hrun : takeBytes _ (dropBytes first (dropBytes pos s.text)) = run
    cases hpieces : splitWordPieces env run with
    | nil => exact hpos.add hat.left
    | cons piece pieces =>
      have hmem : ∀ p ∈ piece :: pieces, IsBoundary s.text (pos + first + p.1 + utf8Len p.2) := by
        intro p hp
        rw [← hpieces] at hp
        have hpiece := (isBoundary_splitWordPieces env hp).2
        rw [← hrun] at hpiece
        have hstop := hpos.add (hat.left.add hpiece.of_takeBytes)
        rwa [show pos + (first + (p.1 + utf8Len p.2)) = pos + first + p.1 + utf8Len p.2 by
          omega] at hstop
      apply isBoundary_adjustPosOutOfElements h
      split
      · cases hlast : (separatorPieces pieces).getLast? with
        | none => exact hmem piece List.mem_cons_self
        | some last =>
          exact hmem last (List.mem_cons_of_mem _ (mem_of_getLast?_separatorPieces hlast))
      · exact hmem piece List.mem_cons_self

lemma isBoundary_endOfNextWord : IsBoundary s.text (s.endOfNextWord env) :=
  isBoundary_endOfNextWordFrom env h h.cursor.boundary

/-! ### Movements -/

lemma moved_moveToDisplayColOnLine (lineStart lineEnd targetCol : ℕ) :
    Moved s (s.moveToDisplayColOnLine env lineStart lineEnd targetCol) :=
  ⟨rfl, rfl, atomic_clampPosOutOfElements h.placed _⟩

lemma moved_moveKeepingCol (line : ℕ × ℕ) (targetCol : ℕ) :
    Moved s (s.moveKeepingCol env line targetCol) := by
  have hcol : { s with preferredCol := some (s.preferredCol.getD targetCol) }.Valid :=
    ⟨h.placed, h.cursor⟩
  have hmoved := moved_moveToDisplayColOnLine env hcol line.1 line.2 targetCol
  exact ⟨hmoved.text, hmoved.elements, hmoved.cursor⟩

omit h

lemma moved_moveToEnd (hpos : Atomic s.text s.elements pos) : Moved s (s.moveToEnd pos) :=
  ⟨rfl, rfl, hpos⟩

variable (h : s.Valid)
include h

lemma moved_moveCursorUp : Moved s (s.moveCursorUp env) := by
  have hend := moved_moveToEnd (atomic_zero s.text s.elements)
  simp only [moveCursorUp]
  cases s.wrappedPosition env with
  | some position =>
    simp only
    cases if 0 < position.2.1 then position.1[position.2.1 - 1]? else none with
    | some previous => exact moved_moveKeepingCol env h _ _
    | none => exact hend
  | none =>
    simp only
    cases rfindByte (· == '\n') (takeBytes s.cursorPos s.text) with
    | some found => exact moved_moveKeepingCol env h _ _
    | none => exact hend

lemma moved_moveCursorDown : Moved s (s.moveCursorDown env) := by
  have hend := moved_moveToEnd h.placed.atomic_utf8Len
  simp only [moveCursorDown]
  cases s.wrappedPosition env with
  | some position =>
    simp only
    cases position.1[position.2.1 + 1]? with
    | some next => exact moved_moveKeepingCol env h _ _
    | none => exact hend
  | none =>
    simp only
    cases findByte (· == '\n') (dropBytes s.cursorPos s.text) with
    | some found => exact moved_moveKeepingCol env h _ _
    | none => exact hend

lemma moved_moveCursorLeft : Moved s (s.moveCursorLeft env) :=
  ⟨rfl, rfl, atomic_prevAtomicBoundary env h.placed _⟩

lemma moved_moveCursorRight : Moved s (s.moveCursorRight env) :=
  ⟨rfl, rfl, atomic_nextAtomicBoundary env h.placed _⟩

lemma moved_moveCursorToBeginningOfLine (moveUpAtBol : Bool) :
    Moved s (s.moveCursorToBeginningOfLine moveUpAtBol) := by
  simp only [moveCursorToBeginningOfLine]
  split
  · exact moved_setCursor h _
  · exact moved_setCursor h _

lemma moved_moveCursorToEndOfLine (moveDownAtEol : Bool) :
    Moved s (s.moveCursorToEndOfLine moveDownAtEol) := by
  simp only [moveCursorToEndOfLine]
  split
  · exact moved_setCursor h _
  · exact moved_setCursor h _

lemma moved_movedBy (motion : VimMotion) : Moved s (s.movedBy env motion) := by
  cases motion with
  | left => exact moved_moveCursorLeft env h
  | right => exact moved_moveCursorRight env h
  | up => exact moved_moveCursorUp env h
  | down => exact moved_moveCursorDown env h
  | wordForward => exact moved_setCursor h _
  | wordBackward => exact moved_setCursor h _
  | wordEnd => exact moved_setCursor h _
  | lineStart => exact moved_setCursor h _
  | lineEnd => exact moved_setCursor h _

lemma onBoundaries_linewiseRange {motion : VimMotion}
    (hrange : s.linewiseRangeForVerticalMotion motion = some range) :
    range.OnBoundaries s.text := by
  have hcur := onBoundaries_currentLine h
  simp only [linewiseRangeForVerticalMotion, Option.filter_eq_some_iff] at hrange
  generalize s.currentLineRangeWithNewline = current at hcur hrange
  cases motion with
  | up =>
    obtain rfl := Option.some.inj hrange.1
    refine ⟨?_, hcur.stop⟩
    simp only
    split
    · exact hcur.start
    · exact isBoundary_beginningOfLine _
  | down =>
    obtain rfl := Option.some.inj hrange.1
    refine ⟨hcur.start, ?_⟩
    simp only
    split
    · exact hcur.stop
    · split
      · exact isBoundary_endOfLine_succ hcur.stop ‹_›
      · exact isBoundary_endOfLine hcur.stop
  | _ => exact absurd hrange.1.symm (Option.some_ne_none _)

lemma onBoundaries_rangeForMotion {motion : VimMotion}
    (hrange : s.rangeForMotion env motion = some range) : range.OnBoundaries s.text := by
  simp only [rangeForMotion] at hrange
  split at hrange
  · exact onBoundaries_linewiseRange h hrange
  · have htarget : IsBoundary s.text (s.targetForMotion env motion) :=
      (moved_movedBy env h motion).cursor.boundary
    split at hrange
    · cases hrange
    · split at hrange
      · cases hrange
        exact ⟨htarget, h.cursor.boundary⟩
      · cases hrange
        exact ⟨h.cursor.boundary, htarget⟩

omit h

/-! ### Text objects -/

lemma onBoundaries_nonWsRunsFrom {text : Text} {len : ℕ} (hlen : IsBoundary text len)
    {chars : List (ℕ × Char)} (hchars : ∀ c ∈ chars, IsBoundary text c.1) {runStart : Option ℕ}
    (hstart : ∀ i ∈ runStart, IsBoundary text i) :
    ∀ run ∈ nonWsRunsFrom len runStart chars, run.OnBoundaries text := by
  induction chars generalizing runStart with
  | nil =>
    cases runStart with
    | none => exact fun run hrun => absurd hrun List.not_mem_nil
    | some i =>
      intro run hrun
      obtain rfl := List.mem_singleton.mp hrun
      exact ⟨hstart i rfl, hlen⟩
  | cons c chars ih =>
    have hc := hchars c List.mem_cons_self
    have hrest : ∀ d ∈ chars, IsBoundary text d.1 := fun d hd =>
      hchars d (List.mem_cons_of_mem c hd)
    have hnone : ∀ i ∈ (none : Option ℕ), IsBoundary text i := fun i hi =>
      absurd hi.symm (Option.some_ne_none i)
    have hsome : ∀ i ∈ some c.1, IsBoundary text i := by
      intro i hi
      cases hi
      exact hc
    cases runStart with
    | none =>
      rw [nonWsRunsFrom]
      split
      · exact ih hrest hnone
      · exact ih hrest hsome
    | some i =>
      rw [nonWsRunsFrom]
      split
      · intro run hrun
        rcases List.mem_cons.mp hrun with rfl | hrun
        · exact ⟨hstart i rfl, hc⟩
        · exact ih hrest hnone run hrun
      · exact ih hrest hstart

lemma onBoundaries_runAtCursor {run : Range} (h : s.runAtCursor = some run) :
    run.OnBoundaries s.text := by
  have hmem := List.mem_of_find?_eq_some h
  apply onBoundaries_nonWsRunsFrom (isBoundary_utf8Len s.text) _ _ run hmem
  · exact fun c hc => (charAt_of_mem_charIndices hc).left
  · exact fun i hi => absurd hi.symm (Option.some_ne_none i)

lemma onBoundaries_pieceRanges {run : Range} (h : run.OnBoundaries s.text) :
    ∀ piece ∈ s.pieceRanges env run, piece.OnBoundaries s.text := by
  intro piece hpiece
  obtain ⟨p, hp, rfl⟩ := List.mem_map.mp hpiece
  obtain ⟨hleft, hright⟩ := isBoundary_splitWordPieces env hp
  refine ⟨h.start.add_slice hleft, ?_⟩
  have hstop := h.start.add_slice hright
  rwa [← Nat.add_assoc] at hstop

lemma onBoundaries_smallWord (h : s.smallWordRangeAtCursor env = some range) :
    range.OnBoundaries s.text := by
  rw [smallWordRangeAtCursor, Option.map_eq_some_iff] at h
  obtain ⟨run, hrun, rfl⟩ := h
  have hrun' := onBoundaries_runAtCursor hrun
  have hpieces := onBoundaries_pieceRanges env hrun'
  cases hfind : (s.pieceRanges env run).find? s.cursorOverlapsRange with
  | some piece => exact hpieces piece (List.mem_of_find?_eq_some hfind)
  | none =>
    simp only
    split
    · cases hlast : (s.pieceRanges env run).getLast? with
      | none => exact hrun'
      | some piece => exact hpieces piece (List.mem_of_getLast? hlast)
    · exact hrun'

lemma onBoundaries_expandWordAround {inner : Range} (h : inner.OnBoundaries s.text) :
    (s.expandWordAround inner).OnBoundaries s.text := by
  have hafter : IsBoundary s.text (s.followingWhitespaceEnd inner.stop) := by
    apply h.stop.add
    refine isBoundary_iff.mpr ⟨_, (dropBytes inner.stop s.text).dropWhile isWhitespace, ?_, rfl⟩
    exact (List.takeWhile_append_dropWhile).symm
  have hbefore : IsBoundary s.text (s.precedingWhitespaceStart inner.start) := by
    obtain ⟨rest, hrest⟩ := List.rdropWhile_prefix isWhitespace (takeBytes inner.start s.text)
    have hb : IsBoundary (takeBytes inner.start s.text)
        (utf8Len (trimEnd (takeBytes inner.start s.text))) :=
      isBoundary_iff.mpr ⟨_, rest, hrest.symm, rfl⟩
    exact hb.of_takeBytes
  simp only [expandWordAround]
  split
  · exact ⟨h.start, hafter⟩
  · exact ⟨hbefore, h.stop⟩

lemma onBoundaries_wordTextObject {bigWord : Bool}
    (h : s.wordTextObjectRange env scope bigWord = some range) : range.OnBoundaries s.text := by
  rw [wordTextObjectRange, Option.map_eq_some_iff] at h
  obtain ⟨inner, hinner, rfl⟩ := h
  have hin : inner.OnBoundaries s.text := by
    split at hinner
    · exact onBoundaries_runAtCursor hinner
    · exact onBoundaries_smallWord env hinner
  cases scope with
  | inner => exact hin
  | around => exact onBoundaries_expandWordAround hin

/-- The character starts and ends on boundaries of the text. -/
def CharBounds (text : Text) (c : Char) (idx : ℕ) : Prop :=
  IsBoundary text idx ∧ IsBoundary text (idx + c.utf8Size)

lemma onBoundaries_betterRange {openIdx idx : ℕ} {best : Option Range}
    (hopen : CharBounds s.text openChar openIdx) (hclose : CharBounds s.text closeChar idx)
    (hbest : ∀ r ∈ best, r.OnBoundaries s.text) :
    ∀ r ∈ s.betterRange scope openChar closeChar openIdx idx best, r.OnBoundaries s.text := by
  have hcandidate : ∀ candidate : Range, candidate.OnBoundaries s.text →
      ∀ (P : Prop) [Decidable P], ∀ r ∈ if P then some candidate else best,
        r.OnBoundaries s.text := by
    intro candidate hon P _ r hr
    split at hr
    · cases hr
      exact hon
    · exact hbest r hr
  simp only [betterRange]
  split
  · cases scope with
    | inner => exact hcandidate _ ⟨hopen.2, hclose.1⟩ _
    | around => exact hcandidate _ ⟨hopen.1, hclose.2⟩ _
  · exact hbest

/-- Open delimiters stand on boundaries, and so does the best range. -/
structure DelimitersOn (text : Text) (openChar : Char) (opened : List ℕ) (best : Option Range) :
    Prop where
  opened : ∀ i ∈ opened, CharBounds text openChar i
  best : ∀ r ∈ best, r.OnBoundaries text

lemma delimitersOn_nil (text : Text) (openChar : Char) : DelimitersOn text openChar [] none :=
  ⟨fun _ hi => absurd hi List.not_mem_nil, fun r hr => absurd hr.symm (Option.some_ne_none r)⟩

lemma delimitersOn_pairedStep {state : List ℕ × Option Range} {entry : ℕ × Char}
    (h : DelimitersOn s.text openChar state.1 state.2)
    (hentry : CharBounds s.text entry.2 entry.1) :
    DelimitersOn s.text openChar (s.pairedStep scope openChar closeChar state entry).1
      (s.pairedStep scope openChar closeChar state entry).2 := by
  obtain ⟨stack, best⟩ := state
  rw [pairedStep]
  split
  · exact h
  split
  · rename_i hopen
    refine ⟨?_, h.best⟩
    intro i hi
    rcases List.mem_cons.mp hi with rfl | hi
    · exact hopen ▸ hentry
    · exact h.opened i hi
  split
  · rename_i hclose
    cases stack with
    | nil => exact h
    | cons openIdx stack =>
      refine ⟨fun i hi => h.opened i (List.mem_cons_of_mem _ hi), ?_⟩
      exact onBoundaries_betterRange (h.opened openIdx List.mem_cons_self) (hclose ▸ hentry) h.best
  · exact h

lemma delimitersOn_quotedStep {quote : Char} {state : Option ℕ × Option Range} {entry : ℕ × Char}
    (h : DelimitersOn s.text quote state.1.toList state.2)
    (hentry : CharBounds s.text entry.2 entry.1) :
    DelimitersOn s.text quote (s.quotedStep scope quote state entry).1.toList
      (s.quotedStep scope quote state entry).2 := by
  obtain ⟨opened, best⟩ := state
  rw [quotedStep]
  split
  · exact h
  · rename_i hquote
    have hc : CharBounds s.text quote entry.1 := by
      have heq : entry.2 = quote := by
        by_contra hne
        exact hquote (.inr (.inl hne))
      rwa [heq] at hentry
    cases opened with
    | some openIdx =>
      refine ⟨(delimitersOn_nil s.text quote).opened, ?_⟩
      exact onBoundaries_betterRange (h.opened openIdx (List.mem_singleton.mpr rfl)) hc h.best
    | none =>
      refine ⟨?_, h.best⟩
      intro i hi
      obtain rfl := List.mem_singleton.mp hi
      exact hc

lemma onBoundaries_pairedTextObject
    (h : s.pairedTextObjectRange scope openChar closeChar = some range) :
    range.OnBoundaries s.text := by
  have hfold : ∀ chars : List (ℕ × Char), (∀ c ∈ chars, CharBounds s.text c.2 c.1) →
      DelimitersOn s.text openChar
        (chars.foldl (s.pairedStep scope openChar closeChar) ([], none)).1
        (chars.foldl (s.pairedStep scope openChar closeChar) ([], none)).2 :=
    fun chars hchars => List.foldlRecOn
      (motive := fun state : List ℕ × Option Range =>
        DelimitersOn s.text openChar state.1 state.2)
      chars _ (delimitersOn_nil s.text openChar)
      fun state hstate c hc => delimitersOn_pairedStep hstate (hchars c hc)
  refine (hfold _ ?_).best range h
  intro c hc
  have hat := charAt_of_mem_charIndices (i := c.1) (c := c.2) hc
  exact ⟨hat.left, hat.right⟩

lemma onBoundaries_quotedTextObject {quote : Char}
    (h : s.quotedTextObjectRange scope quote = some range) :
    range.OnBoundaries s.text := by
  have hbol : IsBoundary s.text s.beginningOfCurrentLine := isBoundary_beginningOfLine _
  have hfold : ∀ chars : List (ℕ × Char), (∀ c ∈ chars, CharBounds s.text c.2 c.1) →
      DelimitersOn s.text quote
        (chars.foldl (s.quotedStep scope quote) (none, none)).1.toList
        (chars.foldl (s.quotedStep scope quote) (none, none)).2 :=
    fun chars hchars => List.foldlRecOn
      (motive := fun state : Option ℕ × Option Range =>
        DelimitersOn s.text quote state.1.toList state.2)
      chars _ (delimitersOn_nil s.text quote)
      fun state hstate c hc => delimitersOn_quotedStep hstate (hchars c hc)
  refine (hfold _ ?_).best range h
  intro c hc
  obtain ⟨j, hat, hj⟩ := exists_of_mem_charIndices (i := c.1) (c := c.2) hc
  rw [hj]
  refine ⟨hbol.add_slice hat.left, ?_⟩
  rw [Nat.add_assoc]
  exact hbol.add_slice hat.right

lemma onBoundaries_textObjectRange {object : VimTextObject}
    (h : s.textObjectRange env object scope = some range) :
    range.OnBoundaries s.text := by
  cases object with
  | word => exact onBoundaries_wordTextObject env h
  | bigWord => exact onBoundaries_wordTextObject env h
  | parentheses => exact onBoundaries_pairedTextObject h
  | brackets => exact onBoundaries_pairedTextObject h
  | braces => exact onBoundaries_pairedTextObject h
  | doubleQuote => exact onBoundaries_quotedTextObject h
  | singleQuote => exact onBoundaries_quotedTextObject h
  | backtick => exact onBoundaries_quotedTextObject h

end TextArea

end Codex.Tui
