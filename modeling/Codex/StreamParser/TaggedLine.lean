import Codex.Lib.Text

/-!
# Tags on lines of their own

`utils/stream-parser/src/tagged_line_parser.rs`: a line is held back until it can no longer be a
tag; other text goes into segments at once. A chunk's end flushes the text that was collected, so
that two chunks give more segments than one; `marks` forgets where a text was cut.
-/

namespace Codex.StreamParser

open Codex.Lib

structure TagSpec (T : Type) where
  openTag : Text
  closeTag : Text
  tag : T

inductive TaggedLineSegment (T : Type) where
  | normal (text : Text)
  | tagStart (tag : T)
  | tagDelta (tag : T) (text : Text)
  | tagEnd (tag : T)

structure TaggedLineParser (T : Type) where
  specs : List (TagSpec T)
  activeTag : Option T := none
  detectTag : Bool := true
  lineBuffer : Text := []

variable {T : Type}

/-! ### Marks -/

/-- What a character of the text or a tag contributes, wherever the text is cut. -/
inductive Mark (T : Type) where
  | visible (c : Char)
  | hidden (tag : T) (c : Char)
  | start (tag : T)
  | stop (tag : T)

def TaggedLineSegment.marks : TaggedLineSegment T → List (Mark T)
  | .normal text => text.map .visible
  | .tagStart tag => [.start tag]
  | .tagDelta tag text => text.map (.hidden tag)
  | .tagEnd tag => [.stop tag]

/-- The marks of a list of segments. -/
def marks (segments : List (TaggedLineSegment T)) : List (Mark T) :=
  segments.flatMap TaggedLineSegment.marks

@[simp] lemma marks_nil : marks ([] : List (TaggedLineSegment T)) = [] := rfl

@[simp] lemma marks_append (segments more : List (TaggedLineSegment T)) :
    marks (segments ++ more) = marks segments ++ marks more :=
  List.flatMap_append

@[simp] lemma marks_singleton (segment : TaggedLineSegment T) :
    marks [segment] = segment.marks := List.append_nil _

variable (activeTag : Option T)

/-- The segment of a text under the active tag. -/
def textSegment (text : Text) : TaggedLineSegment T :=
  match activeTag with
  | some tag => .tagDelta tag text
  | none => .normal text

lemma marks_textSegment_nil : (textSegment activeTag []).marks = [] := by
  cases activeTag <;> rfl

lemma marks_textSegment_append (text more : Text) :
    (textSegment activeTag (text ++ more)).marks =
      (textSegment activeTag text).marks ++ (textSegment activeTag more).marks := by
  cases activeTag with
  | none => exact List.map_append
  | some tag => exact List.map_append

/-! ### Texts that are empty -/

/-- A segment of text has some. -/
def TaggedLineSegment.Nonempty : TaggedLineSegment T → Prop
  | .normal text => text ≠ []
  | .tagDelta _ text => text ≠ []
  | _ => True

def AllNonempty (segments : List (TaggedLineSegment T)) : Prop :=
  ∀ segment ∈ segments, segment.Nonempty

namespace AllNonempty

lemma nil : AllNonempty ([] : List (TaggedLineSegment T)) := nofun

variable {segments : List (TaggedLineSegment T)}

lemma concat {segment : TaggedLineSegment T}
    (h : AllNonempty segments) (hsegment : segment.Nonempty) :
    AllNonempty (segments ++ [segment]) := by
  exact List.forall_mem_append.mpr ⟨h, List.forall_mem_singleton.mpr hsegment⟩

lemma dropLast (h : AllNonempty segments) : AllNonempty segments.dropLast :=
  fun segment hmem => h segment (List.dropLast_subset _ hmem)

end AllNonempty

/-! ### The parser -/

variable [DecidableEq T]

def pushSegment (segments : List (TaggedLineSegment T)) (segment : TaggedLineSegment T) :
    List (TaggedLineSegment T) :=
  match segment with
  | .normal delta =>
    if delta = [] then segments
    else
      match segments.getLast? with
      | some (.normal existing) => segments.dropLast ++ [.normal (existing ++ delta)]
      | _ => segments ++ [.normal delta]
  | .tagDelta tag delta =>
    if delta = [] then segments
    else
      match segments.getLast? with
      | some (.tagDelta existingTag existing) =>
        if existingTag = tag then segments.dropLast ++ [.tagDelta existingTag (existing ++ delta)]
        else segments ++ [.tagDelta tag delta]
      | _ => segments ++ [.tagDelta tag delta]
  | .tagStart tag => segments ++ [.tagStart tag]
  | .tagEnd tag => segments ++ [.tagEnd tag]

namespace TaggedLineParser

variable (parser : TaggedLineParser T)

def pushText (text : Text) (segments : List (TaggedLineSegment T)) : List (TaggedLineSegment T) :=
  pushSegment segments (textSegment parser.activeTag text)

variable (slug : Text)

def isTagPrefix : Bool :=
  let slug := trimEnd slug
  parser.specs.any fun spec => startsWith spec.openTag slug || startsWith spec.closeTag slug

def matchOpen : Option T :=
  (parser.specs.find? fun spec => spec.openTag == slug).map TagSpec.tag

def matchClose : Option T :=
  (parser.specs.find? fun spec => spec.closeTag == slug).map TagSpec.tag

/-- What `finish_line` and `finish` do with a line: a tag that fits opens or closes, and
other lines are text. -/
def pushLine (line : Text) (segments : List (TaggedLineSegment T)) :
    TaggedLineParser T × List (TaggedLineSegment T) :=
  let withoutNewline := if line.getLast? = some '\n' then line.dropLast else line
  let slug := trimEnd (trimStart withoutNewline)
  match parser.activeTag, parser.matchOpen slug, parser.matchClose slug with
  | none, some tag, _ =>
    ({ parser with activeTag := some tag }, pushSegment segments (.tagStart tag))
  | some activeTag, _, some tag =>
    if activeTag = tag then
      ({ parser with activeTag := none }, pushSegment segments (.tagEnd tag))
    else (parser, parser.pushText line segments)
  | _, _, _ => (parser, parser.pushText line segments)

def finishLine (segments : List (TaggedLineSegment T)) :
    TaggedLineParser T × List (TaggedLineSegment T) :=
  let (parser', segments) :=
    { parser with lineBuffer := [], detectTag := true }.pushLine parser.lineBuffer segments
  (parser', segments)

/-- The variables of `parse` -/
structure LineScan (T : Type) where
  parser : TaggedLineParser T
  segments : List (TaggedLineSegment T) := []
  run : Text := []

variable (scan : LineScan T)

/-- The text that was collected, as a segment -/
def LineScan.flush : LineScan T :=
  if scan.run = [] then scan
  else { scan with segments := scan.parser.pushText scan.run scan.segments, run := [] }

/-- One turn of `parse` where a tag is still possible -/
def LineScan.detectChar (ch : Char) : LineScan T :=
  let scan := scan.flush
  let parser : TaggedLineParser T :=
    { scan.parser with lineBuffer := scan.parser.lineBuffer ++ [ch] }
  if ch = '\n' then
    let (parser, segments) := parser.finishLine scan.segments
    { scan with parser, segments }
  else
    let slug := trimStart parser.lineBuffer
    if slug = [] ∨ parser.isTagPrefix slug then { scan with parser }
    else
      { scan with
        parser := { parser with lineBuffer := [], detectTag := false }
        segments := parser.pushText parser.lineBuffer scan.segments }

/-- One turn of `parse` -/
def LineScan.parseChar (ch : Char) : LineScan T :=
  if scan.parser.detectTag then scan.detectChar ch
  else if ch = '\n' then
    { parser := { scan.parser with detectTag := true }
      segments := scan.parser.pushText (scan.run ++ [ch]) scan.segments
      run := [] }
  else { scan with run := scan.run ++ [ch] }

def parse (delta : Text) : TaggedLineParser T × List (TaggedLineSegment T) :=
  let scan := (delta.foldl LineScan.parseChar { parser }).flush
  (scan.parser, scan.segments)

def finish : TaggedLineParser T × List (TaggedLineSegment T) :=
  let (parser, segments) :=
    if parser.lineBuffer = [] then (parser, [])
    else { parser with lineBuffer := [] }.pushLine parser.lineBuffer []
  ({ parser with activeTag := none, detectTag := true }, match parser.activeTag with
    | some tag => pushSegment segments (.tagEnd tag)
    | none => segments)

end TaggedLineParser

lemma marks_pushSegment (segments : List (TaggedLineSegment T)) (segment : TaggedLineSegment T) :
    marks (pushSegment segments segment) = marks segments ++ segment.marks := by
  have hlast : ∀ last, segments.getLast? = some last →
      marks segments = marks segments.dropLast ++ last.marks := by
    intro last hsome
    obtain ⟨before, rfl⟩ := List.getLast?_eq_some_iff.mp hsome
    rw [List.dropLast_concat, marks_append, marks_singleton]
  cases segment with
  | normal delta =>
    rw [pushSegment]
    split_ifs with hempty
    · rw [hempty]
      exact (List.append_nil _).symm
    · split
      next existing hsome =>
        rw [hlast _ hsome, marks_append, marks_singleton]
        simp only [TaggedLineSegment.marks, List.map_append, List.append_assoc]
      next => rw [marks_append, marks_singleton]
  | tagDelta tag delta =>
    rw [pushSegment]
    split_ifs with hempty
    · rw [hempty]
      exact (List.append_nil _).symm
    · split
      next existingTag existing hsome =>
        split_ifs with htag
        · rw [hlast _ hsome, marks_append, marks_singleton, htag]
          simp only [TaggedLineSegment.marks, List.map_append, List.append_assoc]
        · rw [marks_append, marks_singleton]
      next => rw [marks_append, marks_singleton]
  | tagStart tag => rw [pushSegment, marks_append, marks_singleton]
  | tagEnd tag => rw [pushSegment, marks_append, marks_singleton]

namespace TaggedLineParser

variable (parser : TaggedLineParser T)

lemma marks_pushText (text : Text) (segments : List (TaggedLineSegment T)) :
    marks (parser.pushText text segments) =
      marks segments ++ (textSegment parser.activeTag text).marks :=
  marks_pushSegment segments _

/-- A line is a tag, or text, whatever was collected before. -/
theorem pushLine_marks (line : Text) (segments : List (TaggedLineSegment T)) :
    (parser.pushLine line segments).1 = (parser.pushLine line []).1 ∧
      marks (parser.pushLine line segments).2 =
        marks segments ++ marks (parser.pushLine line []).2 := by
  have hpush : ∀ segment : TaggedLineSegment T, marks (pushSegment segments segment) =
      marks segments ++ marks (pushSegment [] segment) := by
    intro segment
    rw [marks_pushSegment, marks_pushSegment, marks_nil, List.nil_append]
  rw [pushLine, pushLine]
  split
  next tag _ _ => exact ⟨rfl, hpush (.tagStart tag)⟩
  next activeTag tag _ _ =>
    split_ifs
    · exact ⟨rfl, hpush (.tagEnd tag)⟩
    · exact ⟨rfl, hpush (textSegment parser.activeTag line)⟩
  next => exact ⟨rfl, hpush (textSegment parser.activeTag line)⟩

namespace LineScan

variable (scan : LineScan T)

/-- Everything a scan has collected. -/
def allMarks : List (Mark T) :=
  marks scan.segments ++ (textSegment scan.parser.activeTag scan.run).marks

/-- Two scans of one parser, of which the first had collected `before` already. -/
structure After (before : List (Mark T)) (scan fresh : LineScan T) : Prop where
  parser : scan.parser = fresh.parser
  marks : scan.allMarks = before ++ fresh.allMarks

lemma flush_spec :
    scan.flush.parser = scan.parser ∧ scan.flush.run = [] ∧
      marks scan.flush.segments = scan.allMarks := by
  rw [flush]
  split_ifs with hempty
  · refine ⟨rfl, hempty, ?_⟩
    rw [allMarks, hempty, marks_textSegment_nil, List.append_nil]
  · exact ⟨rfl, rfl, marks_pushText _ _ _⟩

lemma detectChar_after (ch : Char) :
    After scan.allMarks (scan.detectChar ch)
      (({ parser := scan.parser } : LineScan T).detectChar ch) := by
  obtain ⟨hparser, hrun, hmarks⟩ := flush_spec scan
  have hfresh : ({ parser := scan.parser } : LineScan T).flush = { parser := scan.parser } :=
    if_pos rfl
  rw [detectChar, detectChar, hfresh, hparser]
  dsimp only
  by_cases hnewline : ch = '\n'
  · rw [if_pos hnewline, if_pos hnewline]
    obtain ⟨hline, hlineMarks⟩ := pushLine_marks
      { scan.parser with lineBuffer := [], detectTag := true } (scan.parser.lineBuffer ++ [ch])
      scan.flush.segments
    refine ⟨hline, ?_⟩
    change marks _ ++ (textSegment _ scan.flush.run).marks =
      scan.allMarks ++ (marks _ ++ (textSegment _ []).marks)
    rw [hrun, marks_textSegment_nil, marks_textSegment_nil, List.append_nil, List.append_nil,
      ← hmarks]
    exact hlineMarks
  · rw [if_neg hnewline, if_neg hnewline]
    split_ifs
    · refine ⟨rfl, ?_⟩
      change marks scan.flush.segments ++ (textSegment _ scan.flush.run).marks =
        scan.allMarks ++ (marks [] ++ (textSegment _ []).marks)
      rw [hrun, hmarks, marks_textSegment_nil]
      rfl
    · refine ⟨rfl, ?_⟩
      change marks (pushText _ _ scan.flush.segments) ++ (textSegment _ scan.flush.run).marks =
        scan.allMarks ++ (marks (pushText _ _ []) ++ (textSegment _ []).marks)
      rw [hrun, marks_pushText, marks_pushText, hmarks, marks_textSegment_nil, marks_nil,
        List.nil_append, List.append_assoc]

/-- What a character adds does not depend on what was collected before. -/
theorem parseChar_after (ch : Char) :
    After scan.allMarks (scan.parseChar ch)
      (({ parser := scan.parser } : LineScan T).parseChar ch) := by
  rw [parseChar, parseChar]
  split_ifs
  · exact detectChar_after scan ch
  · refine ⟨rfl, ?_⟩
    change marks (pushText _ (scan.run ++ [ch]) scan.segments) ++ (textSegment _ []).marks =
      scan.allMarks ++ (marks (pushText _ ([] ++ [ch]) []) ++ (textSegment _ []).marks)
    rw [marks_pushText, marks_pushText, marks_textSegment_append, marks_textSegment_nil,
      marks_nil, List.nil_append, List.nil_append, List.append_nil, List.append_nil, allMarks,
      List.append_assoc]
  · refine ⟨rfl, ?_⟩
    change marks scan.segments ++ (textSegment _ (scan.run ++ [ch])).marks =
      scan.allMarks ++ (marks [] ++ (textSegment _ ([] ++ [ch])).marks)
    rw [marks_textSegment_append, marks_nil, List.nil_append, List.nil_append, allMarks,
      List.append_assoc]

lemma After.trans_foldl {before : List (Mark T)} {scan fresh : LineScan T}
    (h : After before scan fresh) (delta : Text) :
    After before (delta.foldl parseChar scan) (delta.foldl parseChar fresh) := by
  induction delta generalizing scan fresh with
  | nil => exact h
  | cons ch delta ih =>
    apply ih
    have hscan := parseChar_after scan ch
    have hfresh := parseChar_after fresh ch
    rw [h.parser] at hscan
    refine ⟨hscan.parser.trans hfresh.parser.symm, ?_⟩
    rw [hscan.marks, hfresh.marks, h.marks, List.append_assoc]

end LineScan

variable (parser : TaggedLineParser T)

lemma parse_fst (delta : Text) :
    (parser.parse delta).1 = (delta.foldl LineScan.parseChar { parser }).parser :=
  (LineScan.flush_spec _).1

lemma parse_marks (delta : Text) :
    marks (parser.parse delta).2 = (delta.foldl LineScan.parseChar { parser }).allMarks :=
  (LineScan.flush_spec _).2.2

/-- **Two chunks give the marks of both**, and leave the parser of both. -/
theorem marks_parse_append (delta next : Text) :
    (parser.parse (delta ++ next)).1 = ((parser.parse delta).1.parse next).1 ∧
      marks (parser.parse (delta ++ next)).2 =
        marks (parser.parse delta).2 ++ marks ((parser.parse delta).1.parse next).2 := by
  have hstart : LineScan.After (delta.foldl LineScan.parseChar { parser }).allMarks
      (delta.foldl LineScan.parseChar { parser })
      { parser := (delta.foldl LineScan.parseChar { parser }).parser } := by
    refine ⟨rfl, ?_⟩
    rw [LineScan.allMarks, LineScan.allMarks, marks_textSegment_nil, marks_nil, List.append_nil,
      List.append_nil]
  have hrest := hstart.trans_foldl next
  rw [parse_fst, parse_marks, parse_marks, parse_marks, parse_fst, parse_fst, List.foldl_append]
  exact ⟨hrest.parser, hrest.marks⟩

end TaggedLineParser

/-! ### What the parser gives -/

namespace AllNonempty

lemma pushSegment {segments : List (TaggedLineSegment T)} (h : AllNonempty segments)
    (segment : TaggedLineSegment T) : AllNonempty (pushSegment segments segment) := by
  cases segment with
  | normal delta =>
    rw [StreamParser.pushSegment]
    split_ifs with hempty
    · exact h
    · split
      next existing _ =>
        apply h.dropLast.concat
        exact fun hnil => hempty (List.append_eq_nil_iff.mp hnil).2
      next => exact h.concat hempty
  | tagDelta tag delta =>
    rw [StreamParser.pushSegment]
    split_ifs with hempty
    · exact h
    · split
      next existingTag existing _ =>
        split_ifs
        · apply h.dropLast.concat
          exact fun hnil => hempty (List.append_eq_nil_iff.mp hnil).2
        · exact h.concat hempty
      next => exact h.concat hempty
  | tagStart tag => exact h.concat trivial
  | tagEnd tag => exact h.concat trivial

lemma pushLine {segments : List (TaggedLineSegment T)} (h : AllNonempty segments)
    (parser : TaggedLineParser T) (line : Text) :
    AllNonempty (parser.pushLine line segments).2 := by
  rw [TaggedLineParser.pushLine]
  split
  next tag _ _ => exact h.pushSegment (.tagStart tag)
  next activeTag tag _ _ =>
    split_ifs
    · exact h.pushSegment (.tagEnd tag)
    · exact h.pushSegment (textSegment parser.activeTag line)
  next => exact h.pushSegment (textSegment parser.activeTag line)

variable {scan : TaggedLineParser.LineScan T}

lemma flush (h : AllNonempty scan.segments) : AllNonempty scan.flush.segments := by
  rw [TaggedLineParser.LineScan.flush]
  split_ifs
  · exact h
  · exact h.pushSegment _

lemma parseChar (h : AllNonempty scan.segments) (ch : Char) :
    AllNonempty (scan.parseChar ch).segments := by
  rw [TaggedLineParser.LineScan.parseChar]
  split_ifs
  · rw [TaggedLineParser.LineScan.detectChar]
    dsimp only
    split_ifs
    · exact h.flush.pushLine _ _
    · exact h.flush
    · exact h.flush.pushSegment _
  · exact h.pushSegment _
  · exact h

variable (parser : TaggedLineParser T)

lemma parse (delta : Text) : AllNonempty (parser.parse delta).2 := by
  apply flush
  have hstart : AllNonempty ({ parser } : TaggedLineParser.LineScan T).segments := nil
  generalize ({ parser } : TaggedLineParser.LineScan T) = scan at hstart
  induction delta generalizing scan with
  | nil => exact hstart
  | cons ch delta ih => exact ih _ (hstart.parseChar ch)

lemma finish : AllNonempty parser.finish.2 := by
  have hline : AllNonempty (if parser.lineBuffer = [] then (parser, [])
      else { parser with lineBuffer := [] }.pushLine parser.lineBuffer []).2 := by
    split_ifs
    · exact nil
    · exact nil.pushLine _ _
  rw [TaggedLineParser.finish]
  revert hline
  generalize (if parser.lineBuffer = [] then (parser, [])
    else { parser with lineBuffer := [] }.pushLine parser.lineBuffer []) = line
  intro hline
  obtain ⟨parser', segments⟩ := line
  dsimp only at hline ⊢
  split
  · exact hline.pushSegment _
  · exact hline

end AllNonempty

end Codex.StreamParser
