import Codex.StreamParser.AssistantText
import Codex.StreamParser.InlineHiddenTagScan
import Codex.StreamParser.TagLines

/-!
# Complete texts

`strip_citations`, `strip_proposed_plan_blocks`, `extract_proposed_plan_text` and
`strip_hidden_assistant_markup` of `core/src/stream_events_utils.rs` take a text that is complete.
They are given by the leftmost scan and by the lines of the text.
-/

namespace Codex.StreamParser

open Codex.Lib

/-! ### Citations -/

variable (text : Text)

def stripCitations : Text × List Text :=
  let (out, parser) := CitationStreamParser.new.pushStr text
  let tail := parser.finish
  (out.visibleText ++ tail.visibleText, out.extracted ++ tail.extracted)

lemma stripCitations_eq :
    stripCitations text =
      ((segments [citationSpec] text).flatMap Segment.visibleText,
        ((segments [citationSpec] text).filterMap Segment.extracted).map
          ExtractedInlineTag.content) := by
  have hscan := InlineHiddenTagParser.scan_finish
    (List.pairwise_singleton _ citationSpec : InlineHiddenTagParser.SeparateOpeners _) none text
  have hcontents := congrArg citationContents hscan
  rw [citationContents_append] at hcontents
  have hvisible := congrArg StreamTextChunk.visibleText hcontents
  have hextracted := congrArg StreamTextChunk.extracted hcontents
  exact Prod.ext hvisible hextracted

/-! ### Plan blocks -/

/-- The segments of a complete text. -/
def planSegments : List ProposedPlanSegment :=
  let (out, parser) := ProposedPlanParser.new.pushStr text
  out.extracted ++ parser.finish.extracted

def stripProposedPlanBlocks : Text :=
  let (out, parser) := ProposedPlanParser.new.pushStr text
  out.visibleText ++ parser.finish.visibleText

/-- One segment of the loop of `extract_proposed_plan_text`: `saw_plan_block` and `plan_text` -/
def extractSegment (state : Bool × Text) : ProposedPlanSegment → Bool × Text
  | .proposedPlanStart => (true, [])
  | .proposedPlanDelta delta => (state.1, state.2 ++ delta)
  | .proposedPlanEnd | .normal _ => state

def extractProposedPlanText : Option Text :=
  let (sawPlanBlock, planText) := (planSegments text).foldl extractSegment (false, [])
  if sawPlanBlock then some planText else none

/-- The lines of a text, with what they are to the plan parser. -/
def planLines : List (LineOutcome PlanTag) :=
  (lineOutcomes [planSpec] none (splitInclusive '\n' text)).1

namespace LineOutcome

/-- The line, where no block is open. -/
def normalText : LineOutcome PlanTag → Text
  | .text none line => line
  | _ => []

/-- The line, inside a block. -/
def planText : LineOutcome PlanTag → Text
  | .text (some _) line => line
  | _ => []

def isOpening : LineOutcome PlanTag → Bool
  | .opens .. => true
  | _ => false

end LineOutcome

lemma planMarks_planSegments (text : Text) :
    planMarks (planSegments text) =
      (planLines text).flatMap LineOutcome.marks ++
        closing (lineOutcomes [planSpec] none (splitInclusive '\n' text)).2 := by
  have hlines :=
    TaggedLineParser.marks_collect_lines [planSpec] (closedApart_singleton planSpec) [text]
  rw [List.flatten_singleton, TaggedLineParser.collect, TaggedLineParser.collect, marks_append]
    at hlines
  rw [planLines, ← hlines, planSegments, planMarks_append]
  exact congrArg₂ (· ++ ·) (planMarks_map _) (planMarks_map _)

lemma stripProposedPlanBlocks_eq_flatMap (text : Text) :
    stripProposedPlanBlocks text =
      (planSegments text).flatMap ProposedPlanSegment.visibleText := by
  rw [planSegments, List.flatMap_append]
  rfl

/-- What of the marks of lines is visible. -/
lemma filterMap_marks {f : Mark PlanTag → Option Char} (hvisible : ∀ c, f (.visible c) = some c)
    (hother : ∀ mark, (∀ c, mark ≠ .visible c) → f mark = none)
    (outcomes : List (LineOutcome PlanTag)) (activeTag : Option PlanTag) :
    (outcomes.flatMap LineOutcome.marks ++ closing activeTag).filterMap f =
      outcomes.flatMap LineOutcome.normalText := by
  have hclosing : (closing activeTag).filterMap f = [] := by
    rw [List.filterMap_eq_nil_iff]
    intro mark hmark
    obtain ⟨tag, -, rfl⟩ := List.mem_map.mp hmark
    exact hother _ fun c h => by cases h
  rw [List.filterMap_append, hclosing, List.append_nil, List.filterMap_flatMap]
  congr 1
  funext outcome
  cases outcome with
  | text activeTag line =>
    cases activeTag with
    | none =>
      change (line.map Mark.visible).filterMap f = line
      rw [List.filterMap_map]
      exact (congrArg (List.filterMap · line) (funext hvisible)).trans List.filterMap_some
    | some tag =>
      change (line.map (Mark.hidden tag)).filterMap f = []
      rw [List.filterMap_map, List.filterMap_eq_nil_iff]
      exact fun c _ => hother _ fun c h => by cases h
  | opens tag line => exact List.filterMap_cons_none (hother _ fun c h => by cases h)
  | closes tag line => exact List.filterMap_cons_none (hother _ fun c h => by cases h)

/-- The lines outside the blocks are left. -/
lemma stripProposedPlanBlocks_eq (text : Text) :
    stripProposedPlanBlocks text = (planLines text).flatMap LineOutcome.normalText := by
  rw [stripProposedPlanBlocks_eq_flatMap, visibleText_eq, planMarks_planSegments]
  refine filterMap_marks (fun c => rfl) (fun mark hmark => ?_) _ _
  cases mark with
  | visible c => exact absurd rfl (hmark c)
  | _ => rfl

/-! ### The last block -/

variable (state : Bool × Text)

/-- One mark of the loop of `extract_proposed_plan_text` -/
def extractMark : Mark PlanTag → Bool × Text
  | .start _ => (true, [])
  | .hidden _ c => (state.1, state.2 ++ [c])
  | .visible _ | .stop _ => state

lemma foldl_visible (text : Text) : (text.map Mark.visible).foldl extractMark state = state := by
  induction text with
  | nil => rfl
  | cons c text ih => exact ih

lemma foldl_hidden (tag : PlanTag) (text : Text) :
    (text.map (Mark.hidden tag)).foldl extractMark state = (state.1, state.2 ++ text) := by
  induction text generalizing state with
  | nil => rw [List.map_nil, List.foldl_nil, List.append_nil]
  | cons c text ih =>
    rw [List.map_cons, List.foldl_cons, ih, extractMark, List.append_assoc]
    rfl

lemma foldl_extractSegment (segments : List ProposedPlanSegment) :
    segments.foldl extractSegment state = (planMarks segments).foldl extractMark state := by
  induction segments generalizing state with
  | nil => rfl
  | cons segment segments ih =>
    rw [List.foldl_cons, ih, planMarks, planMarks, List.flatMap_cons, List.foldl_append]
    congr 1
    cases segment with
    | normal text => exact (foldl_visible state text).symm
    | proposedPlanDelta text => exact (foldl_hidden state .proposedPlan text).symm
    | _ => rfl

lemma foldl_marks_of_isOpening {outcome : LineOutcome PlanTag} (h : outcome.isOpening = true)
    (state : Bool × Text) : outcome.marks.foldl extractMark state = (true, []) := by
  cases outcome with
  | opens tag line => rfl
  | _ => cases h

lemma foldl_marks {outcomes : List (LineOutcome PlanTag)}
    (h : ∀ outcome ∈ outcomes, outcome.isOpening = false) (state : Bool × Text) :
    (outcomes.flatMap LineOutcome.marks).foldl extractMark state =
      (state.1, state.2 ++ outcomes.flatMap LineOutcome.planText) := by
  induction outcomes generalizing state with
  | nil => rw [List.flatMap_nil, List.flatMap_nil, List.foldl_nil, List.append_nil]
  | cons outcome outcomes ih =>
    obtain ⟨hopening, hrest⟩ := List.forall_mem_cons.mp h
    have hline : outcome.marks.foldl extractMark state =
        (state.1, state.2 ++ outcome.planText) := by
      cases outcome with
      | text activeTag line =>
        cases activeTag with
        | none =>
          change _ = (state.1, state.2 ++ [])
          rw [List.append_nil]
          exact foldl_visible state line
        | some tag => exact foldl_hidden state tag line
      | opens tag line => cases hopening
      | closes tag line =>
        change _ = (state.1, state.2 ++ [])
        rw [List.append_nil]
        rfl
    rw [List.flatMap_cons, List.foldl_append, hline, ih hrest, List.flatMap_cons, List.append_assoc]

lemma exists_last_isOpening (outcomes : List (LineOutcome PlanTag)) :
    (∀ outcome ∈ outcomes, outcome.isOpening = false) ∨
    ∃ before opening after, outcomes = before ++ opening :: after ∧ opening.isOpening = true ∧
      ∀ outcome ∈ after, outcome.isOpening = false := by
  induction outcomes with
  | nil => exact .inl (List.forall_mem_nil _)
  | cons outcome outcomes ih =>
    obtain hnone | ⟨before, opening, after, rfl, hlast⟩ := ih
    · cases hopening : outcome.isOpening with
      | false => exact .inl (List.forall_mem_cons.mpr ⟨hopening, hnone⟩)
      | true => exact .inr ⟨[], outcome, outcomes, rfl, hopening, hnone⟩
    · exact .inr ⟨outcome :: before, opening, after, rfl, hlast⟩

lemma extractProposedPlanText_eq (text : Text) :
    extractProposedPlanText text =
      if (((planLines text).flatMap LineOutcome.marks).foldl extractMark (false, [])).1 then
        some (((planLines text).flatMap LineOutcome.marks).foldl extractMark (false, [])).2
      else none := by
  have hclosing : ∀ state activeTag, (closing activeTag).foldl extractMark state = state := by
    intro state activeTag
    cases activeTag with
    | none => rfl
    | some tag => rfl
  rw [extractProposedPlanText, foldl_extractSegment, planMarks_planSegments, List.foldl_append,
    hclosing]

/-- **The lines outside the blocks are left, and the plan is the lines of the last block.** -/
theorem stripProposedPlanBlocks_eq_and_extractProposedPlanText_eq_some_iff (text : Text) :
    stripProposedPlanBlocks text = (planLines text).flatMap LineOutcome.normalText ∧
      ∀ plan, extractProposedPlanText text = some plan ↔
        ∃ before opening after, planLines text = before ++ opening :: after ∧
          opening.isOpening = true ∧ (∀ outcome ∈ after, outcome.isOpening = false) ∧
          plan = after.flatMap LineOutcome.planText := by
  refine ⟨stripProposedPlanBlocks_eq text, fun plan => ?_⟩
  have hblock : ∀ before opening after, planLines text = before ++ opening :: after →
      opening.isOpening = true → (∀ outcome ∈ after, outcome.isOpening = false) →
      extractProposedPlanText text = some (after.flatMap LineOutcome.planText) := by
    intro before opening after hlines hopening hafter
    rw [extractProposedPlanText_eq, hlines, List.flatMap_append, List.flatMap_cons,
      List.foldl_append, List.foldl_append, foldl_marks_of_isOpening hopening, foldl_marks hafter]
    rfl
  constructor
  · intro hplan
    obtain hnone | ⟨before, opening, after, hlines, hopening, hafter⟩ :=
      exists_last_isOpening (planLines text)
    · simp [extractProposedPlanText_eq, foldl_marks hnone] at hplan
    · rw [hblock before opening after hlines hopening hafter] at hplan
      exact ⟨before, opening, after, hlines, hopening, hafter, (Option.some.inj hplan).symm⟩
  · rintro ⟨before, opening, after, hlines, hopening, hafter, rfl⟩
    exact hblock before opening after hlines hopening hafter

end Codex.StreamParser
