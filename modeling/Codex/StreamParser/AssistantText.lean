import Codex.StreamParser.InlineHiddenTag
import Codex.StreamParser.TaggedLine

/-!
# The assistant's text, streamed

`utils/stream-parser/src/{citation,proposed_plan,assistant_text}.rs`: citations are stripped from
the text first, and in plan mode plan blocks from what is left. The plan parser sees the visible
text of the citation parser in pieces that depend on the chunks; neither parser lets them show.
-/

namespace Codex.StreamParser

open Codex.Lib

/-! ### Citations -/

inductive CitationTag where
  | citation

/-- The spec of `CitationStreamParser::new` -/
def citationSpec : InlineTagSpec CitationTag where
  tag := .citation
  openTag := "<oai-mem-citation>".toList
  closeTag := "</oai-mem-citation>".toList
  openTag_ne := by decide
  closeTag_ne := by decide

structure CitationStreamParser where
  inner : InlineHiddenTagParser CitationTag
  specs : inner.specs = [citationSpec]

/-- The chunk of the inner parser, of which the contents are kept -/
def citationContents (inner : StreamTextChunk (ExtractedInlineTag CitationTag)) :
    StreamTextChunk Text :=
  { visibleText := inner.visibleText, extracted := inner.extracted.map ExtractedInlineTag.content }

lemma citationContents_append (chunk next : StreamTextChunk (ExtractedInlineTag CitationTag)) :
    citationContents (chunk.append next) =
      (citationContents chunk).append (citationContents next) := by
  simp only [citationContents, StreamTextChunk.append, List.map_append]

namespace CitationStreamParser

def new : CitationStreamParser := ⟨{ specs := [citationSpec] }, rfl⟩

def pushStr (parser : CitationStreamParser) (chunk : Text) :
    StreamTextChunk Text × CitationStreamParser :=
  (citationContents (parser.inner.pushStr chunk).1,
    ⟨(parser.inner.pushStr chunk).2, (parser.inner.specs_pushStr chunk).trans parser.specs⟩)

/-- `CitationStreamParser::finish`; the parser is not used after it -/
def finish (parser : CitationStreamParser) : StreamTextChunk Text :=
  citationContents parser.inner.finish.1

lemma pushStr_append (parser : CitationStreamParser) (chunk next : Text) :
    parser.pushStr (chunk ++ next) =
      ((parser.pushStr chunk).1.append ((parser.pushStr chunk).2.pushStr next).1,
        ((parser.pushStr chunk).2.pushStr next).2) := by
  have hsep : InlineHiddenTagParser.SeparateOpeners parser.inner.specs := by
    rw [parser.specs]
    exact List.pairwise_singleton _ _
  have hinner := InlineHiddenTagParser.pushStr_append hsep chunk next
  have hchunk := congrArg Prod.fst hinner
  have hparser := congrArg Prod.snd hinner
  dsimp only at hchunk hparser
  unfold pushStr
  simp only [hchunk, hparser, citationContents_append]

end CitationStreamParser

/-! ### Plan blocks -/

inductive PlanTag where
  | proposedPlan
  deriving DecidableEq

inductive ProposedPlanSegment where
  | normal (text : Text)
  | proposedPlanStart
  | proposedPlanDelta (text : Text)
  | proposedPlanEnd
  deriving DecidableEq

structure ProposedPlanParser where
  parser : TaggedLineParser PlanTag

/-- The match of `map_segments` -/
def mapSegment : TaggedLineSegment PlanTag → ProposedPlanSegment
  | .normal text => .normal text
  | .tagStart .proposedPlan => .proposedPlanStart
  | .tagDelta .proposedPlan text => .proposedPlanDelta text
  | .tagEnd .proposedPlan => .proposedPlanEnd

/-- The visible text of a segment. -/
def ProposedPlanSegment.visibleText : ProposedPlanSegment → Text
  | .normal text => text
  | _ => []

def mapSegments (segments : List (TaggedLineSegment PlanTag)) :
    StreamTextChunk ProposedPlanSegment :=
  let mapped := segments.map mapSegment
  { visibleText := mapped.flatMap ProposedPlanSegment.visibleText, extracted := mapped }

/-- `OPEN_TAG` and `CLOSE_TAG` of `proposed_plan.rs` -/
def planSpec : TagSpec PlanTag :=
  ⟨"<proposed_plan>".toList, "</proposed_plan>".toList, .proposedPlan⟩

namespace ProposedPlanParser

def new : ProposedPlanParser := ⟨{ specs := [planSpec] }⟩

def pushStr (parser : ProposedPlanParser) (chunk : Text) :
    StreamTextChunk ProposedPlanSegment × ProposedPlanParser :=
  (mapSegments (parser.parser.parse chunk).2, ⟨(parser.parser.parse chunk).1⟩)

/-- `ProposedPlanParser::finish`; the parser is not used after it -/
def finish (parser : ProposedPlanParser) : StreamTextChunk ProposedPlanSegment :=
  mapSegments parser.parser.finish.2

end ProposedPlanParser

/-! ### The assistant's text -/

structure AssistantTextChunk where
  visibleText : Text := []
  citations : List Text := []
  planSegments : List ProposedPlanSegment := []
  deriving DecidableEq

/-- One chunk after the other. -/
def AssistantTextChunk.append (chunk next : AssistantTextChunk) : AssistantTextChunk :=
  ⟨chunk.visibleText ++ next.visibleText, chunk.citations ++ next.citations,
    chunk.planSegments ++ next.planSegments⟩

structure AssistantTextStreamParser where
  planMode : Bool
  citations : CitationStreamParser
  plan : ProposedPlanParser

namespace AssistantTextStreamParser

def new (planMode : Bool) : AssistantTextStreamParser :=
  ⟨planMode, CitationStreamParser.new, ProposedPlanParser.new⟩

def parseVisibleText (parser : AssistantTextStreamParser) (visibleText : Text) :
    AssistantTextChunk × AssistantTextStreamParser :=
  if parser.planMode then
    let (planChunk, plan) := parser.plan.pushStr visibleText
    ({ visibleText := planChunk.visibleText, planSegments := planChunk.extracted },
      { parser with plan })
  else ({ visibleText }, parser)

def pushStr (parser : AssistantTextStreamParser) (chunk : Text) :
    AssistantTextChunk × AssistantTextStreamParser :=
  let (citationChunk, citations) := parser.citations.pushStr chunk
  let (out, parser) := { parser with citations }.parseVisibleText citationChunk.visibleText
  ({ out with citations := citationChunk.extracted }, parser)

/-- `AssistantTextStreamParser::finish`; the parser is not used after it -/
def finish (parser : AssistantTextStreamParser) : AssistantTextChunk :=
  let citationChunk := parser.citations.finish
  let (out, parser) := parser.parseVisibleText citationChunk.visibleText
  let out :=
    if parser.planMode then
      let tail := parser.plan.finish
      { out with
        visibleText := out.visibleText ++ tail.visibleText
        planSegments := out.planSegments ++ tail.extracted }
    else out
  { out with citations := citationChunk.extracted }

/-- What pushing chunks and finishing gives. -/
def collect (parser : AssistantTextStreamParser) : List Text → AssistantTextChunk
  | [] => parser.finish
  | chunk :: chunks => (parser.pushStr chunk).1.append (collect (parser.pushStr chunk).2 chunks)

end AssistantTextStreamParser

/-! ### Merged segments -/

/-- A segment is merged with the last one where both are visible text or both are plan text. -/
def pushMerged (merged : List ProposedPlanSegment) (segment : ProposedPlanSegment) :
    List ProposedPlanSegment :=
  match segment, merged.getLast? with
  | .normal text, some (.normal existing) => merged.dropLast ++ [.normal (existing ++ text)]
  | .proposedPlanDelta text, some (.proposedPlanDelta existing) =>
    merged.dropLast ++ [.proposedPlanDelta (existing ++ text)]
  | segment, _ => merged ++ [segment]

variable (segments : List ProposedPlanSegment)

/-- The segments, with adjacent texts of one kind merged. -/
def mergeSegments : List ProposedPlanSegment :=
  segments.foldl pushMerged []

/-- The marks of a plan segment. -/
def ProposedPlanSegment.marks : ProposedPlanSegment → List (Mark PlanTag)
  | .normal text => text.map .visible
  | .proposedPlanStart => [.start .proposedPlan]
  | .proposedPlanDelta text => text.map (.hidden .proposedPlan)
  | .proposedPlanEnd => [.stop .proposedPlan]

def planMarks : List (Mark PlanTag) :=
  segments.flatMap ProposedPlanSegment.marks

/-- No text of the segments is empty. -/
def NonemptyTexts : Prop :=
  .normal [] ∉ segments ∧ .proposedPlanDelta [] ∉ segments

/-- The segment of one mark. -/
def Mark.segment : Mark PlanTag → ProposedPlanSegment
  | .visible c => .normal [c]
  | .hidden _ c => .proposedPlanDelta [c]
  | .start _ => .proposedPlanStart
  | .stop _ => .proposedPlanEnd

/-- Texts of one kind, of which each is merged with the last one. -/
structure Merges (wrap : Text → ProposedPlanSegment) : Prop where
  push : ∀ merged, ∃ before existing, ∀ text,
    pushMerged merged (wrap text) = before ++ [wrap (existing ++ text)]
  extend : ∀ before existing text,
    pushMerged (before ++ [wrap existing]) (wrap text) = before ++ [wrap (existing ++ text)]

variable {wrap : Text → ProposedPlanSegment}

/-- The last segment is of the same kind, or the text comes after it. -/
lemma Merges.of_last (hnil : ∀ text, pushMerged [] (wrap text) = [wrap text])
    (hextend : ∀ before existing text,
      pushMerged (before ++ [wrap existing]) (wrap text) = before ++ [wrap (existing ++ text)])
    (hlast : ∀ last, (∃ existing, last = wrap existing) ∨ ∀ before text,
      pushMerged (before ++ [last]) (wrap text) = before ++ [last] ++ [wrap text]) :
    Merges wrap := by
  refine ⟨fun merged => ?_, hextend⟩
  rcases List.eq_nil_or_concat' merged with rfl | ⟨before, last, rfl⟩
  · exact ⟨[], [], hnil⟩
  · obtain ⟨existing, rfl⟩ | hafter := hlast last
    · exact ⟨before, existing, hextend before existing⟩
    · exact ⟨before ++ [last], [], hafter before⟩

lemma merges_normal : Merges ProposedPlanSegment.normal := by
  refine .of_last (fun _ => rfl) (fun _ _ _ => by simp [pushMerged]) fun last => ?_
  cases last <;> simp [pushMerged]

lemma merges_proposedPlanDelta : Merges ProposedPlanSegment.proposedPlanDelta := by
  refine .of_last (fun _ => rfl) (fun _ _ _ => by simp [pushMerged]) fun last => ?_
  cases last <;> simp [pushMerged]

/-- A text is merged as its characters are, one after the other. -/
theorem Merges.foldl (h : Merges wrap) {text : Text}
    (hne : text ≠ []) (merged : List ProposedPlanSegment) :
    pushMerged merged (wrap text) =
      text.foldl (fun merged c => pushMerged merged (wrap [c])) merged := by
  induction text generalizing merged with
  | nil => exact absurd rfl hne
  | cons c text ih =>
    by_cases hlast : text = []
    · rw [hlast]
      rfl
    · obtain ⟨before, existing, hpush⟩ := h.push merged
      rw [List.foldl_cons, ← ih hlast, hpush, hpush, h.extend, List.append_assoc]
      rfl

lemma mergeSegments_eq_foldl_marks {segments : List ProposedPlanSegment}
    (h : NonemptyTexts segments) :
    mergeSegments segments =
      (planMarks segments).foldl (fun merged mark => pushMerged merged mark.segment) [] := by
  rw [mergeSegments]
  generalize ([] : List ProposedPlanSegment) = merged
  induction segments generalizing merged with
  | nil => rfl
  | cons segment segments ih =>
    have hrest : NonemptyTexts segments :=
      ⟨fun hmem => h.1 (List.mem_cons_of_mem _ hmem), fun hmem => h.2 (List.mem_cons_of_mem _ hmem)⟩
    rw [List.foldl_cons, planMarks, List.flatMap_cons, List.foldl_append, ← planMarks, ih hrest]
    congr 1
    cases segment with
    | normal text =>
      have hne : text ≠ [] := by
        rintro rfl
        exact h.1 List.mem_cons_self
      rw [merges_normal.foldl hne, ProposedPlanSegment.marks, List.foldl_map]
      rfl
    | proposedPlanDelta text =>
      have hne : text ≠ [] := by
        rintro rfl
        exact h.2 List.mem_cons_self
      rw [merges_proposedPlanDelta.foldl hne, ProposedPlanSegment.marks, List.foldl_map]
      rfl
    | proposedPlanStart => rfl
    | proposedPlanEnd => rfl

lemma mergeSegments_eq_of_planMarks {segments segments' : List ProposedPlanSegment}
    (h : NonemptyTexts segments) (h' : NonemptyTexts segments')
    (hmarks : planMarks segments = planMarks segments') :
    mergeSegments segments = mergeSegments segments' := by
  rw [mergeSegments_eq_foldl_marks h, mergeSegments_eq_foldl_marks h', hmarks]

/-! ### The segments of the plan parser -/

lemma planMarks_map (segments : List (TaggedLineSegment PlanTag)) :
    planMarks (segments.map mapSegment) = marks segments := by
  rw [planMarks, List.flatMap_map, marks]
  congr 1
  funext segment
  cases segment <;> rfl

lemma visibleText_eq :
    segments.flatMap ProposedPlanSegment.visibleText = (planMarks segments).filterMap fun
        | .visible c => some c
        | _ => none := by
  rw [planMarks, List.filterMap_flatMap]
  congr 1
  funext segment
  cases segment with
  | normal text =>
    rw [ProposedPlanSegment.marks, List.filterMap_map]
    exact List.filterMap_some.symm
  | proposedPlanDelta text =>
    rw [ProposedPlanSegment.marks, List.filterMap_map]
    exact (List.filterMap_eq_nil_iff.mpr fun _ _ => rfl).symm
  | _ => rfl

/-- The segments of the plan parser have no empty text. -/
theorem nonemptyTexts_map {segments : List (TaggedLineSegment PlanTag)}
    (h : AllNonempty segments) : NonemptyTexts (segments.map mapSegment) := by
  refine ⟨fun hmem => ?_, fun hmem => ?_⟩
  · obtain ⟨segment, hsegment, hmap⟩ := List.mem_map.mp hmem
    cases segment with
    | normal text => exact h _ hsegment (ProposedPlanSegment.normal.inj hmap)
    | _ => exact nomatch hmap
  · obtain ⟨segment, hsegment, hmap⟩ := List.mem_map.mp hmem
    cases segment with
    | tagDelta tag text => exact h _ hsegment (ProposedPlanSegment.proposedPlanDelta.inj hmap)
    | _ => exact nomatch hmap

lemma NonemptyTexts.append {segments more : List ProposedPlanSegment}
    (h : NonemptyTexts segments) (hmore : NonemptyTexts more) :
    NonemptyTexts (segments ++ more) :=
  ⟨fun hmem => (List.mem_append.mp hmem).elim h.1 hmore.1,
    fun hmem => (List.mem_append.mp hmem).elim h.2 hmore.2⟩

lemma planMarks_append (segments more : List ProposedPlanSegment) :
    planMarks (segments ++ more) = planMarks segments ++ planMarks more :=
  List.flatMap_append

/-! ### Outputs that agree -/

/-- Two outputs agree, wherever their texts are cut. -/
structure AssistantTextChunk.Agrees (chunk other : AssistantTextChunk) : Prop where
  visibleText : chunk.visibleText = other.visibleText
  citations : chunk.citations = other.citations
  planMarks : planMarks chunk.planSegments = planMarks other.planSegments
  deriving DecidableEq

namespace AssistantTextChunk.Agrees

variable {chunk other another next nextOther : AssistantTextChunk}

lemma refl (chunk : AssistantTextChunk) : chunk.Agrees chunk := ⟨rfl, rfl, rfl⟩

variable (h : chunk.Agrees other)
include h

lemma trans (hother : other.Agrees another) : chunk.Agrees another :=
  ⟨h.visibleText.trans hother.visibleText, h.citations.trans hother.citations,
    h.planMarks.trans hother.planMarks⟩

lemma symm : other.Agrees chunk :=
  ⟨h.visibleText.symm, h.citations.symm, h.planMarks.symm⟩

lemma append (hnext : next.Agrees nextOther) :
    (chunk.append next).Agrees (other.append nextOther) := by
  refine ⟨?_, ?_, ?_⟩
  · exact congrArg₂ (· ++ ·) h.visibleText hnext.visibleText
  · exact congrArg₂ (· ++ ·) h.citations hnext.citations
  · rw [AssistantTextChunk.append, AssistantTextChunk.append, planMarks_append, planMarks_append,
      h.planMarks, hnext.planMarks]

end AssistantTextChunk.Agrees

lemma AssistantTextChunk.append_assoc (chunk next last : AssistantTextChunk) :
    (chunk.append next).append last = chunk.append (next.append last) := by
  simp only [AssistantTextChunk.append, List.append_assoc]

namespace ProposedPlanParser

variable (parser : ProposedPlanParser)

/-- Two pushes leave the plan parser of one, and give its marks. -/
theorem pushStr_append (chunk next : Text) :
    (parser.pushStr (chunk ++ next)).2 = ((parser.pushStr chunk).2.pushStr next).2 ∧
      planMarks (parser.pushStr (chunk ++ next)).1.extracted =
        planMarks ((parser.pushStr chunk).1.extracted ++
          ((parser.pushStr chunk).2.pushStr next).1.extracted) := by
  obtain ⟨hparser, hmarks⟩ := TaggedLineParser.marks_parse_append parser.parser chunk next
  refine ⟨congrArg ProposedPlanParser.mk hparser, ?_⟩
  rw [planMarks_append]
  simp only [pushStr, mapSegments, planMarks_map]
  exact hmarks

/-- The visible text of a chunk is that of its marks. -/
theorem visibleText_pushStr (chunk : Text) :
    (parser.pushStr chunk).1.visibleText =
      (parser.pushStr chunk).1.extracted.flatMap ProposedPlanSegment.visibleText := rfl

end ProposedPlanParser

namespace AssistantTextStreamParser

variable (parser : AssistantTextStreamParser)

/-- Two pieces of visible text leave the parser of both, and agree with it. -/
theorem parseVisibleText_append (text next : Text) :
    (parser.parseVisibleText (text ++ next)).2 =
        ((parser.parseVisibleText text).2.parseVisibleText next).2 ∧
      (parser.parseVisibleText (text ++ next)).1.Agrees
        ((parser.parseVisibleText text).1.append
          ((parser.parseVisibleText text).2.parseVisibleText next).1) := by
  obtain ⟨planMode, citations, plan⟩ := parser
  cases planMode with
  | false => exact ⟨rfl, .refl _⟩
  | true =>
    obtain ⟨hplan, hmarks⟩ := plan.pushStr_append text next
    refine ⟨congrArg (AssistantTextStreamParser.mk true citations) hplan, ?_, rfl, hmarks⟩
    change (plan.pushStr (text ++ next)).1.visibleText =
      (plan.pushStr text).1.visibleText ++ ((plan.pushStr text).2.pushStr next).1.visibleText
    rw [plan.visibleText_pushStr, plan.visibleText_pushStr,
      (plan.pushStr text).2.visibleText_pushStr, visibleText_eq, hmarks, ← visibleText_eq,
      List.flatMap_append]

lemma parseVisibleText_citations (citations : CitationStreamParser) (text : Text) :
    { parser with citations }.parseVisibleText text =
      ((parser.parseVisibleText text).1, { (parser.parseVisibleText text).2 with citations }) := by
  obtain ⟨planMode, citations', plan⟩ := parser
  cases planMode with
  | false => rfl
  | true => rfl

variable (chunk : Text)

lemma pushStr_eq :
    parser.pushStr chunk =
      ({ (parser.parseVisibleText (parser.citations.pushStr chunk).1.visibleText).1 with
          citations := (parser.citations.pushStr chunk).1.extracted },
        { (parser.parseVisibleText (parser.citations.pushStr chunk).1.visibleText).2 with
          citations := (parser.citations.pushStr chunk).2 }) := by
  rw [pushStr]
  simp only [parseVisibleText_citations]

lemma citations_pushStr :
    (parser.pushStr chunk).2.citations = (parser.citations.pushStr chunk).2 := by
  rw [pushStr_eq]

/-- **Two pushes leave the parser of one push of both texts, and agree with it.** -/
theorem pushStr_append (chunk next : Text) :
    (parser.pushStr (chunk ++ next)).2 = ((parser.pushStr chunk).2.pushStr next).2 ∧
      (parser.pushStr (chunk ++ next)).1.Agrees
        ((parser.pushStr chunk).1.append ((parser.pushStr chunk).2.pushStr next).1) := by
  have hcitations := parser.citations.pushStr_append chunk next
  obtain ⟨hplan, hagrees⟩ := parser.parseVisibleText_append
    (parser.citations.pushStr chunk).1.visibleText
    ((parser.citations.pushStr chunk).2.pushStr next).1.visibleText
  rw [pushStr_eq (parser.pushStr chunk).2, citations_pushStr, pushStr_eq parser chunk,
    parseVisibleText_citations, pushStr_eq parser (chunk ++ next), hcitations]
  refine ⟨?_, hagrees.visibleText, rfl, hagrees.planMarks⟩
  exact congrArg (fun after => { after with
    citations := ((parser.citations.pushStr chunk).2.pushStr next).2 }) hplan

/-- Pushing a text before the others is pushing one more chunk. -/
theorem collect_cons_agrees (chunks : List Text) :
    (parser.collect (chunk :: chunks)).Agrees (parser.collect [chunk ++ chunks.flatten]) := by
  -- The induction is on the chunks that follow; the last one is joined first.
  induction chunks generalizing parser chunk with
  | nil =>
    rw [List.flatten_nil, List.append_nil]
    exact .refl _
  | cons next chunks ih =>
    have hrest := ih (parser.pushStr chunk).2 next
    obtain ⟨hparser, hagrees⟩ := parser.pushStr_append chunk (next ++ chunks.flatten)
    rw [List.flatten_cons, collect]
    apply ((AssistantTextChunk.Agrees.refl _).append hrest).trans
    rw [collect, collect, collect, collect, hparser, ← AssistantTextChunk.append_assoc]
    exact hagrees.symm.append (.refl _)

lemma nonemptyTexts_parseVisibleText (text : Text) :
    NonemptyTexts (parser.parseVisibleText text).1.planSegments := by
  rw [parseVisibleText]
  split_ifs
  · exact nonemptyTexts_map (.parse parser.plan.parser text)
  · exact ⟨nofun, nofun⟩

lemma nonemptyTexts_finish : NonemptyTexts parser.finish.planSegments := by
  have hvisible := parser.nonemptyTexts_parseVisibleText parser.citations.finish.visibleText
  rw [finish]
  dsimp only
  split_ifs
  · exact hvisible.append (nonemptyTexts_map (.finish _))
  · exact hvisible

lemma nonemptyTexts_collect (chunks : List Text) :
    NonemptyTexts (parser.collect chunks).planSegments := by
  induction chunks generalizing parser with
  | nil => exact parser.nonemptyTexts_finish
  | cons chunk chunks ih =>
    have hchunk : NonemptyTexts (parser.pushStr chunk).1.planSegments := by
      rw [pushStr_eq]
      exact parser.nonemptyTexts_parseVisibleText _
    exact hchunk.append (ih (parser.pushStr chunk).2)

/-- **Every way to cut a text into chunks gives the same visible text, the same citations and,
merged, the same plan segments.** -/
theorem collect_chunkInvariant (planMode : Bool) (chunks : List Text) :
    let out := (new planMode).collect chunks
    let whole := (new planMode).collect [chunks.flatten]
    out.visibleText = whole.visibleText ∧ out.citations = whole.citations ∧
      mergeSegments out.planSegments = mergeSegments whole.planSegments := by
  have hagrees : ((new planMode).collect chunks).Agrees
      ((new planMode).collect [chunks.flatten]) := by
    cases chunks with
    | cons chunk chunks => exact (new planMode).collect_cons_agrees chunk chunks
    | nil =>
      -- Pushing nothing to a new parser does nothing.
      cases planMode with
      | false => exact ⟨rfl, rfl, rfl⟩
      | true => exact ⟨rfl, rfl, rfl⟩
  exact ⟨hagrees.visibleText, hagrees.citations,
    mergeSegments_eq_of_planMarks (nonemptyTexts_collect _ _) (nonemptyTexts_collect _ _)
      hagrees.planMarks⟩

end AssistantTextStreamParser

/-- A plan whose tags are cut, and a citation inside it. -/
example :
    (AssistantTextStreamParser.new true).collect
        ["a\n<proposed".toList, "_plan>\nb<oai-mem-".toList,
          "citation>c</oai-mem-citation>\n</proposed_plan>".toList] =
      { visibleText := "a\n".toList
        citations := ["c".toList]
        planSegments :=
          [.normal "a\n".toList, .proposedPlanStart, .proposedPlanDelta "b".toList,
            .proposedPlanDelta "\n".toList, .proposedPlanEnd] } := by
  decide +kernel

end Codex.StreamParser
