import Codex.Tui.Spans
import Codex.Tui.Input

/-!
# Edits and the elements

`Kept new s s'` says what a step does to the elements: those of `s'` are elements of `s` with the
text they had, and an element of `s` is still there with its text or lies in a part of the text that
was replaced by `new` as a whole.

* `kept_of_splice`: so it is for an edit of a range that cuts no element;
* `kept_insertStrAt`, `kept_replaceRange`, `kept_killRange`: the three ways in which the editing
  commands change the text.

Steps compose (`Kept.moved`, `Moved.then`), so a command that moves and edits is kept by its parts.
-/

namespace Codex.Tui

open Codex.Lib
open String (utf8Len)

/-! ### Shifted elements -/

namespace TextArea

section splice

variable {text new : Text} {elements : List TextElement} {start stop : ℕ} (h : Placed text elements)
include h

/-- An element that the edit does not remove stays or moves. -/
theorem shiftElement_cases (hle : start ≤ stop)
    (hcut : Uncut elements ⟨start, stop⟩) {inserted : ℕ} {e : TextElement} (he : e ∈ elements)
    (hout : ¬ (start ≤ e.range.start ∧ e.range.stop ≤ stop)) :
    (e.range.stop ≤ start ∧ shiftElement start (stop - start) inserted e = e) ∨
      (stop ≤ e.range.start ∧
        shiftElement start (stop - start) inserted e = moveElement (stop - start) inserted e) := by
  rcases hcut e he with hbefore | hin | hafter
  · exact .inl ⟨hbefore, if_pos hbefore⟩
  · exact absurd hin hout
  · have hne := h.nonempty e he
    have hafter' : stop ≤ e.range.start := hafter
    refine .inr ⟨hafter, ?_⟩
    rw [shiftElement, if_neg (by omega), if_pos (by omega)]

lemma mem_shiftAll (hle : start ≤ stop)
    (hcut : Uncut elements ⟨start, stop⟩) {inserted : ℕ} {e' : TextElement} :
    e' ∈ shiftAll start (stop - start) inserted elements ↔
      ∃ e ∈ elements, (e.range.stop ≤ start ∧ e' = e) ∨
        (stop ≤ e.range.start ∧ e' = moveElement (stop - start) inserted e) := by
  have hstop : start + (stop - start) = stop := by omega
  simp only [shiftAll, List.mem_map, List.mem_filter, hstop, Bool.not_eq_true',
    decide_eq_false_iff_not]
  constructor
  · rintro ⟨e, ⟨he, hout⟩, rfl⟩
    exact ⟨e, he, shiftElement_cases h hle hcut he hout⟩
  · rintro ⟨e, he, ⟨hbefore, rfl⟩ | ⟨hafter, rfl⟩⟩
    · have hne := h.nonempty e' he
      exact ⟨e', ⟨he, by omega⟩, if_pos hbefore⟩
    · have hne := h.nonempty e he
      refine ⟨e, ⟨he, by omega⟩, ?_⟩
      rw [shiftElement, if_neg (by omega), if_pos (by omega)]

/-- **An edit of a range that cuts no element leaves the elements placed.** -/
theorem placed_splice (hstart : IsBoundary text start)
    (hstop : IsBoundary text stop) (hle : start ≤ stop) (hcut : Uncut elements ⟨start, stop⟩) :
    Placed (splice text start stop new)
      (shiftAll start (stop - start) (utf8Len new) elements) := by
  refine ⟨?_, ?_, ?_, ?_⟩
  · rw [shiftAll, List.pairwise_map]
    apply (h.sorted.filter _).imp_of_mem
    intro a b ha hb hab
    rw [List.mem_filter, Bool.not_eq_true', decide_eq_false_iff_not] at ha hb
    rw [show start + (stop - start) = stop by omega] at ha hb
    have hna := h.nonempty a ha.1
    have hnb := h.nonempty b hb.1
    rcases shiftElement_cases h hle hcut ha.1 ha.2 with ⟨hpos, heq⟩ | ⟨hpos, heq⟩
    · rcases shiftElement_cases h hle hcut hb.1 hb.2 with ⟨hpos', heq'⟩ | ⟨hpos', heq'⟩
      · rw [heq, heq']
        exact hab
      · rw [heq, heq']
        simp only [moveElement]
        omega
    · rcases shiftElement_cases h hle hcut hb.1 hb.2 with ⟨hpos', heq'⟩ | ⟨hpos', heq'⟩
      · omega
      · rw [heq, heq']
        simp only [moveElement]
        omega
  · intro e' he'
    obtain ⟨e, he, ⟨-, rfl⟩ | ⟨hafter, rfl⟩⟩ := (mem_shiftAll h hle hcut).mp he'
    · exact h.nonempty e' he
    · have hne := h.nonempty e he
      simp only [moveElement]
      omega
  · intro e' he'
    obtain ⟨e, he, ⟨hbefore, rfl⟩ | ⟨hafter, rfl⟩⟩ := (mem_shiftAll h hle hcut).mp he'
    · have hne := h.nonempty e' he
      exact isBoundary_splice_of_le hstart hstop hle (h.start e' he) (by omega)
    · exact isBoundary_splice_of_ge hstart hstop hle (h.start e he) hafter
  · intro e' he'
    obtain ⟨e, he, ⟨hbefore, rfl⟩ | ⟨hafter, rfl⟩⟩ := (mem_shiftAll h hle hcut).mp he'
    · exact isBoundary_splice_of_le hstart hstop hle (h.stop e' he) hbefore
    · have hne := h.nonempty e he
      exact isBoundary_splice_of_ge hstart hstop hle (h.stop e he) (by omega)

omit h

lemma atomic_splice_of_le (new : Text) (h : Placed text elements) (hstart : IsBoundary text start)
    (hstop : IsBoundary text stop) (hle : start ≤ stop) (hcut : Uncut elements ⟨start, stop⟩)
    {pos : ℕ} (hpos : Atomic text elements pos) (hbefore : pos ≤ start) :
    Atomic (splice text start stop new)
      (shiftAll start (stop - start) (utf8Len new) elements) pos := by
  refine ⟨isBoundary_splice_of_le hstart hstop hle hpos.boundary hbefore, ?_⟩
  intro e' he'
  obtain ⟨e, he, ⟨-, rfl⟩ | ⟨hafter, rfl⟩⟩ := (mem_shiftAll h hle hcut).mp he'
  · exact hpos.outside e' he
  · simp only [moveElement]
    omega

lemma atomic_splice_of_ge (new : Text) (h : Placed text elements) (hstart : IsBoundary text start)
    (hstop : IsBoundary text stop) (hle : start ≤ stop) (hcut : Uncut elements ⟨start, stop⟩)
    {pos : ℕ} (hpos : Atomic text elements pos) (hafter : stop ≤ pos) :
    Atomic (splice text start stop new)
      (shiftAll start (stop - start) (utf8Len new) elements)
      (pos + utf8Len new - (stop - start)) := by
  refine ⟨isBoundary_splice_of_ge hstart hstop hle hpos.boundary hafter, ?_⟩
  intro e' he'
  obtain ⟨e, he, ⟨hbefore, rfl⟩ | ⟨hafter', rfl⟩⟩ := (mem_shiftAll h hle hcut).mp he'
  · omega
  · have hout := hpos.outside e he
    simp only [moveElement]
    omega

end splice

/-! ### What a step keeps -/

/-- The element of the new state is that of the old one, with the same text. -/
def Keeps (s s' : TextArea) (e e' : TextElement) : Prop :=
  e'.id = e.id ∧
    slice s'.text e'.range.start e'.range.stop = slice s.text e.range.start e.range.stop

/-- The new text has `new` in place of a part of the old one that contains the whole element. -/
def RemovedWhole (new : Text) (s s' : TextArea) (e : TextElement) : Prop :=
  ∃ a x b, s.text = a ++ x ++ b ∧ s'.text = a ++ new ++ b ∧
    utf8Len a ≤ e.range.start ∧ e.range.stop ≤ utf8Len a + utf8Len x

/-- A step to a valid state under which elements keep their text or are removed as a whole. -/
structure Kept (new : Text) (s s' : TextArea) : Prop where
  valid : s'.Valid
  origin : ∀ e' ∈ s'.elements, ∃ e ∈ s.elements, Keeps s s' e e'
  whole : ∀ e ∈ s.elements, (∃ e' ∈ s'.elements, Keeps s s' e e') ∨ RemovedWhole new s s' e

/-- A step that changes neither the text nor the elements, to an atomic cursor. -/
structure Moved (s s' : TextArea) : Prop where
  text : s'.text = s.text
  elements : s'.elements = s.elements
  cursor : Atomic s.text s.elements s'.cursorPos

variable {new : Text} {range : Range}

lemma Moved.kept {s s' : TextArea} (h : s.Valid) (hmoved : Moved s s') : Kept new s s' := by
  refine ⟨⟨?_, ?_⟩, ?_, ?_⟩
  · rw [hmoved.text, hmoved.elements]
    exact h.placed
  · rw [hmoved.text, hmoved.elements]
    exact hmoved.cursor
  · intro e he
    rw [hmoved.elements] at he
    exact ⟨e, he, rfl, by rw [hmoved.text]⟩
  · intro e he
    refine .inl ⟨e, ?_, rfl, by rw [hmoved.text]⟩
    rwa [hmoved.elements]

lemma Kept.moved {s s' s'' : TextArea} (h : Kept new s s') (hmoved : Moved s' s'') :
    Kept new s s'' := by
  refine ⟨(Moved.kept h.valid hmoved : Kept new s' s'').valid, ?_, ?_⟩
  · intro e' he'
    rw [hmoved.elements] at he'
    obtain ⟨e, he, hid, hslice⟩ := h.origin e' he'
    exact ⟨e, he, hid, by rw [hmoved.text, hslice]⟩
  · intro e he
    rcases h.whole e he with ⟨e', he', hid, hslice⟩ | ⟨a, x, b, ha, hb, hrest⟩
    · refine .inl ⟨e', ?_, hid, by rw [hmoved.text, hslice]⟩
      rwa [hmoved.elements]
    · exact .inr ⟨a, x, b, ha, hmoved.text.trans hb, hrest⟩

lemma Moved.then {s s' s'' : TextArea} (hmoved : Moved s s') (h : Kept new s' s'') :
    Kept new s s'' := by
  refine ⟨h.valid, ?_, ?_⟩
  · intro e' he'
    obtain ⟨e, he, hid, hslice⟩ := h.origin e' he'
    exact ⟨e, hmoved.elements ▸ he, hid, by rw [hslice, hmoved.text]⟩
  · intro e he
    rw [← hmoved.elements] at he
    rcases h.whole e he with ⟨e', he', hid, hslice⟩ | ⟨a, x, b, ha, hrest⟩
    · exact .inl ⟨e', he', hid, by rw [hslice, hmoved.text]⟩
    · exact .inr ⟨a, x, b, hmoved.text ▸ ha, hrest⟩

/-- **An edit of a range that cuts no element keeps the elements outside it.** -/
theorem kept_of_splice {s s' : TextArea} {replaced new : Text} {start stop : ℕ} (h : s.Valid)
    (hstart : IsBoundary s.text start) (hstop : IsBoundary s.text stop) (hle : start ≤ stop)
    (hcut : Uncut s.elements ⟨start, stop⟩) (htext : s'.text = splice s.text start stop new)
    (helements : s'.elements = shiftAll start (stop - start) (utf8Len new) s.elements)
    (hcursor : Atomic s'.text s'.elements s'.cursorPos) (hnew : start < stop → replaced = new) :
    Kept replaced s s' := by
  have hkeep : ∀ e ∈ s.elements, ∀ e',
      (e.range.stop ≤ start ∧ e' = e) ∨
        (stop ≤ e.range.start ∧ e' = moveElement (stop - start) (utf8Len new) e) →
      Keeps s s' e e' := by
    rintro e he e' (⟨hbefore, rfl⟩ | ⟨hafter, rfl⟩)
    · refine ⟨rfl, ?_⟩
      rw [htext]
      exact slice_splice_of_le hstart hstop hle (h.placed.start e' he) (h.placed.stop e' he)
        (h.placed.nonempty e' he).le hbefore
    · refine ⟨rfl, ?_⟩
      rw [htext]
      exact slice_splice_of_ge hstart hstop hle (h.placed.start e he) (h.placed.stop e he)
        (h.placed.nonempty e he).le hafter
  refine ⟨⟨?_, hcursor⟩, ?_, ?_⟩
  · rw [htext, helements]
    exact placed_splice h.placed hstart hstop hle hcut
  · intro e' he'
    rw [helements] at he'
    obtain ⟨e, he, hmoved⟩ := (mem_shiftAll h.placed hle hcut).mp he'
    exact ⟨e, he, hkeep e he e' hmoved⟩
  · intro e he
    have hmem : ∀ e', (e.range.stop ≤ start ∧ e' = e) ∨
        (stop ≤ e.range.start ∧ e' = moveElement (stop - start) (utf8Len new) e) →
        e' ∈ s'.elements := by
      intro e' hmoved
      rw [helements]
      exact (mem_shiftAll h.placed hle hcut).mpr ⟨e, he, hmoved⟩
    rcases hcut e he with hbefore | hin | hafter
    · exact .inl ⟨e, hmem e (.inl ⟨hbefore, rfl⟩), hkeep e he e (.inl ⟨hbefore, rfl⟩)⟩
    · have hne := h.placed.nonempty e he
      obtain ⟨a, x, b, hsplit, ha, hx⟩ := exists_split hstart hstop hle
      have hin' : start ≤ e.range.start ∧ e.range.stop ≤ stop := hin
      refine .inr ⟨a, x, b, hsplit, ?_, by omega, by omega⟩
      rw [htext, hsplit, ← ha, ← hx, splice_append, hnew (by omega)]
    · exact .inl ⟨_, hmem _ (.inr ⟨hafter, rfl⟩), hkeep e he _ (.inr ⟨hafter, rfl⟩)⟩

/-! ### The three ways to edit -/

variable {s : TextArea}

lemma kept_self (h : s.Valid) : Kept new s s := Moved.kept h ⟨rfl, rfl, h.cursor⟩

lemma moved_setCursor (h : s.Valid) (pos : ℕ) : Moved s (s.setCursor pos) :=
  ⟨rfl, rfl, atomic_clampPosOutOfElements h.placed _⟩

lemma uncut_of_atomic {pos : ℕ} (h : Atomic s.text s.elements pos) :
    Uncut s.elements ⟨pos, pos⟩ := by
  intro e he
  have hout := h.outside e he
  by_cases hbefore : e.range.stop ≤ pos
  · exact .inl hbefore
  · exact .inr (.inr (by simp only; omega))

variable (h : s.Valid)
include h

/-- **Inserted text goes between the elements.** -/
theorem kept_insertStrAt (pos : ℕ) (text : Text) : Kept new s (s.insertStrAt pos text) := by
  have hat := atomic_clampPosOutOfElements h.placed pos
  have hcut := uncut_of_atomic hat
  have hb := hat.boundary
  rw [insertStrAt, clampPosForInsertion]
  generalize s.clampPosOutOfElements pos = p at hat hcut hb ⊢
  apply kept_of_splice h hb hb le_rfl hcut rfl
  · rw [Nat.sub_self]
    rfl
  · simp only [shiftElements]
    by_cases hpos : p ≤ s.cursorPos
    · rw [if_pos hpos]
      have hmoved := atomic_splice_of_ge text h.placed hb hb le_rfl hcut h.cursor hpos
      rwa [Nat.sub_self] at hmoved
    · rw [if_neg hpos]
      have hsame := atomic_splice_of_le text h.placed hb hb le_rfl hcut h.cursor
        (by omega)
      rwa [Nat.sub_self] at hsame
  · exact fun hlt => absurd hlt (Nat.lt_irrefl p)

lemma kept_insertStr (text : Text) : Kept new s (s.insertStr text) := kept_insertStrAt h _ text

variable (hstart : IsBoundary s.text range.start)
include hstart

variable (hstop : IsBoundary s.text range.stop)
include hstop

/-- **A replaced range that cuts no element.** -/
theorem kept_replaceRangeRaw {text : Text} (hle : range.start ≤ range.stop)
    (hcut : Uncut s.elements range) :
    Kept text s (s.replaceRangeRaw range text) := by
  simp only [replaceRangeRaw, min_eq_left hstart.le, min_eq_left hstop.le]
  split
  · exact kept_self h
  · apply kept_of_splice h hstart hstop hle hcut rfl rfl
    · apply atomic_clampPosOutOfElements
      exact placed_splice h.placed hstart hstop hle hcut
    · exact fun _ => rfl

/-- The ends of an expanded range are those of the range or of elements. -/
theorem isBoundary_expandRange
    :
    IsBoundary s.text (s.expandRangeToElementBoundaries range).start ∧
      IsBoundary s.text (s.expandRangeToElementBoundaries range).stop :=
  expandLoop_induction (fun e he => ⟨h.placed.start e he, h.placed.stop e he⟩) _ ⟨hstart, hstop⟩

lemma kept_replaceRange {text : Text} (hle : range.start ≤ range.stop) :
    Kept text s (s.replaceRange range text) := by
  obtain ⟨hstart', hstop'⟩ := isBoundary_expandRange h hstart hstop
  have hcov : (s.expandRangeToElementBoundaries range).Covers range := covers_expandLoop ..
  apply kept_replaceRangeRaw h hstart' hstop'
  · exact hcov.1.trans (hle.trans hcov.2)
  · exact uncut_expandRangeToElementBoundaries s range

omit hstop

omit hstart

/-- A killed range is removed with the elements that it meets; a reversed range that meets none is
not killed. -/
theorem kept_killRangeWithKind (kind : KillBufferKind)
    (hstart : IsBoundary s.text range.start) (hstop : IsBoundary s.text range.stop) :
    Kept [] s (s.killRangeWithKind range kind) := by
  obtain ⟨hstart', hstop'⟩ := isBoundary_expandRange h hstart hstop
  have hcut := uncut_expandRangeToElementBoundaries s range
  rw [killRangeWithKind]
  generalize s.expandRangeToElementBoundaries range = expanded at hstart' hstop' hcut ⊢
  by_cases hle : expanded.stop ≤ expanded.start
  · simp only [if_pos hle]
    exact kept_self h
  · simp only [if_neg hle]
    split
    · exact kept_self h
    · have hstored : (s.storeKillBuffer (slice s.text expanded.start expanded.stop) kind).Valid :=
        ⟨h.placed, h.cursor⟩
      have hkept : Kept [] _ _ := kept_replaceRangeRaw hstored hstart' hstop' (by omega) hcut
      exact ⟨hkept.valid, hkept.origin, hkept.whole⟩

lemma kept_killRange (hstart : IsBoundary s.text range.start)
    (hstop : IsBoundary s.text range.stop) : Kept [] s (s.killRange range) :=
  kept_killRangeWithKind h .characterwise hstart hstop

lemma kept_yankRangeWithKind (range : Range) (kind : KillBufferKind) :
    Kept new s (s.yankRangeWithKind range kind) := by
  simp only [yankRangeWithKind]
  split
  · exact kept_self h
  · split
    · exact kept_self h
    · exact Moved.kept h ⟨rfl, rfl, h.cursor⟩

end TextArea

end Codex.Tui
