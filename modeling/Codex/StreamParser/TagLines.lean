import Codex.Lib.SplitInclusive
import Codex.StreamParser.TaggedLine

/-!
# The lines of a tagged text

A line whose trimmed text is an open tag opens it where no tag is active, one whose trimmed text is
the close tag of the active tag closes it, and any other line is text of the active tag
(`lineOutcomes`). The parser of `tagged_line_parser.rs` decides this character by character, and
gives the text away as soon as the line can be no tag.
-/

namespace Codex.StreamParser

open Codex.Lib

variable {T : Type}

/-! ### Outcomes -/

/-- What a line is, with its newline. -/
inductive LineOutcome (T : Type) where
  | text (activeTag : Option T) (line : Text)
  | opens (tag : T) (line : Text)
  | closes (tag : T) (line : Text)

namespace LineOutcome

def line : LineOutcome T → Text
  | .text _ line | .opens _ line | .closes _ line => line

def marks : LineOutcome T → List (Mark T)
  | .text activeTag line => (textSegment activeTag line).marks
  | .opens tag _ => [.start tag]
  | .closes tag _ => [.stop tag]

/-- The tag that is active after the line. -/
def activeTag : LineOutcome T → Option T
  | .text activeTag _ => activeTag
  | .opens tag _ => some tag
  | .closes .. => none

end LineOutcome

variable [DecidableEq T]

/-- Two tags that are closed alike are one: a line that closes a tag then closes no other. Every
parser of the crate has one spec only. -/
def ClosedApart (specs : List (TagSpec T)) : Prop :=
  ∀ a ∈ specs, ∀ b ∈ specs, a.closeTag = b.closeTag → a.tag = b.tag

omit [DecidableEq T] in
lemma closedApart_singleton (spec : TagSpec T) : ClosedApart [spec] := by
  intro a ha b hb _
  rw [List.mem_singleton.mp ha, List.mem_singleton.mp hb]

def lineOutcome (specs : List (TagSpec T)) (activeTag : Option T) (line : Text) : LineOutcome T :=
  match activeTag with
  | none =>
    match specs.find? (·.openTag == trim line) with
    | some spec => .opens spec.tag line
    | none => .text none line
  | some tag =>
    if ∃ spec ∈ specs, spec.tag = tag ∧ spec.closeTag = trim line then .closes tag line
    else .text (some tag) line

/-- The outcomes of the lines of a text, and the tag that is active after them. -/
def lineOutcomes (specs : List (TagSpec T)) (activeTag : Option T) :
    List Text → List (LineOutcome T) × Option T
  | [] => ([], activeTag)
  | line :: lines =>
    let outcome := lineOutcome specs activeTag line
    let (outcomes, lastTag) := lineOutcomes specs outcome.activeTag lines
    (outcome :: outcomes, lastTag)

/-- A tag that is still active at the end is closed. -/
def closing (activeTag : Option T) : List (Mark T) := activeTag.toList.map .stop

/-- Tags are opened and closed in turn, and text is that of the tag that is open. -/
def Balanced : Option T → List (Mark T) → Prop
  | activeTag, [] => activeTag = none
  | none, .visible _ :: rest => Balanced none rest
  | none, .start tag :: rest => Balanced (some tag) rest
  | some activeTag, .hidden tag _ :: rest => tag = activeTag ∧ Balanced (some activeTag) rest
  | some activeTag, .stop tag :: rest => tag = activeTag ∧ Balanced none rest
  | _, _ => False

variable {specs : List (TagSpec T)} {activeTag : Option T} {line : Text}

variable (specs)

lemma line_lineOutcome (activeTag : Option T) (line : Text) :
    (lineOutcome specs activeTag line).line = line := by
  unfold lineOutcome
  cases activeTag with
  | none =>
    dsimp only
    split <;> rfl
  | some tag =>
    dsimp only
    split_ifs <;> rfl

lemma line_lineOutcomes (activeTag : Option T) (lines : List Text) :
    (lineOutcomes specs activeTag lines).1.flatMap LineOutcome.line = lines.flatten := by
  induction lines generalizing activeTag with
  | nil => rfl
  | cons line lines ih =>
    rw [lineOutcomes, List.flatMap_cons, line_lineOutcome, ih, List.flatten_cons]

variable {specs}

omit [DecidableEq T] in
lemma Balanced.text {rest : List (Mark T)} (h : Balanced activeTag rest) (text : Text) :
    Balanced activeTag ((textSegment activeTag text).marks ++ rest) := by
  cases activeTag with
  | none =>
    induction text with
    | nil => exact h
    | cons c text ih => exact ih
  | some tag =>
    induction text with
    | nil => exact h
    | cons c text ih => exact ⟨rfl, ih⟩

lemma balanced_lineOutcome {rest : List (Mark T)}
    (h : Balanced (lineOutcome specs activeTag line).activeTag rest) :
    Balanced activeTag ((lineOutcome specs activeTag line).marks ++ rest) := by
  revert h
  unfold lineOutcome
  cases activeTag with
  | none =>
    dsimp only
    split
    · exact id
    · exact fun h => Balanced.text h line
  | some tag =>
    dsimp only
    split_ifs
    · exact fun h => ⟨rfl, h⟩
    · exact fun h => Balanced.text h line

lemma balanced_lineOutcomes (activeTag : Option T) (lines : List Text) :
    Balanced activeTag ((lineOutcomes specs activeTag lines).1.flatMap LineOutcome.marks ++
      closing (lineOutcomes specs activeTag lines).2) := by
  induction lines generalizing activeTag with
  | nil =>
    cases activeTag with
    | none => rfl
    | some tag => exact ⟨rfl, rfl⟩
  | cons line lines ih =>
    rw [lineOutcomes, List.flatMap_cons, List.append_assoc]
    exact balanced_lineOutcome (ih _)

/-! ### A line that can still be a tag -/

/-- No way to go on makes the line a tag. -/
def Disproved (specs : List (TagSpec T)) (line : Text) : Prop :=
  ∀ rest, ∀ spec ∈ specs, spec.openTag ≠ trim (line ++ rest) ∧ spec.closeTag ≠ trim (line ++ rest)

omit [DecidableEq T] in
lemma Disproved.append (h : Disproved specs line) (more : Text) :
    Disproved specs (line ++ more) := by
  intro rest
  rw [List.append_assoc]
  exact h (more ++ rest)

lemma trimEnd_prefix_append (s t : Text) : trimEnd s <+: trimEnd (s ++ t) := by
  induction t using List.reverseRecOn with
  | nil => simp only [List.append_nil, List.prefix_rfl]
  | append_singleton t c ih =>
    rw [← List.append_assoc]
    by_cases hc : isWhitespace c = true
    · rwa [trimEnd_concat hc]
    · have hlast : trimEnd (s ++ t ++ [c]) = s ++ t ++ [c] :=
        List.rdropWhile_concat_neg isWhitespace _ c hc
      rw [hlast, List.append_assoc]
      exact (List.rdropWhile_prefix isWhitespace _).trans (List.prefix_append _ _)

namespace TaggedLineParser

variable {parser : TaggedLineParser T}

omit [DecidableEq T] in
/-- A line that ends as a tag was a prefix of that tag before. -/
theorem disproved_of_isTagPrefix (hne : trimStart line ≠ [])
    (h : parser.isTagPrefix (trimStart line) = false) : Disproved parser.specs line := by
  intro rest spec hspec
  have hstart : trimStart (line ++ rest) = trimStart line ++ rest := by
    unfold trimStart at hne ⊢
    rw [List.dropWhile_append, if_neg (by simpa using hne)]
  have hinit : trimEnd (trimStart line) <+: trim (line ++ rest) := by
    rw [trim, hstart]
    exact trimEnd_prefix_append _ _
  have hspecs := List.any_eq_false.mp h spec hspec
  rw [Bool.or_eq_true, not_or, startsWith, startsWith, List.isPrefixOf_iff_prefix,
    List.isPrefixOf_iff_prefix] at hspecs
  constructor
  · intro hopen
    rw [← hopen] at hinit
    exact hspecs.1 hinit
  · intro hclose
    rw [← hclose] at hinit
    exact hspecs.2 hinit

omit [DecidableEq T] in
lemma lineOutcome_of_disproved [DecidableEq T] (h : Disproved specs line) :
    lineOutcome specs activeTag line = .text activeTag line := by
  have hline := h []
  rw [List.append_nil] at hline
  unfold lineOutcome
  cases activeTag with
  | none =>
    have hnone : specs.find? (·.openTag == trim line) = none := by
      rw [List.find?_eq_none]
      intro spec hspec
      simpa using (hline spec hspec).1
    dsimp only
    rw [hnone]
  | some tag =>
    dsimp only
    rw [if_neg]
    rintro ⟨spec, hspec, -, hclose⟩
    exact (hline spec hspec).2 hclose

/-! ### The end of a line -/

lemma marks_pushText_nil (parser : TaggedLineParser T) (text : Text) :
    marks (parser.pushText text []) = (textSegment parser.activeTag text).marks :=
  marks_pushText parser text []

/-- `finish_line` and `finish` give a line its outcome. -/
theorem pushLine_eq (hapart : ClosedApart parser.specs) (line : Text) :
    (parser.pushLine line []).1 =
        { parser with activeTag := (lineOutcome parser.specs parser.activeTag line).activeTag } ∧
      marks (parser.pushLine line []).2 =
        (lineOutcome parser.specs parser.activeTag line).marks := by
  have hslug : trimEnd (trimStart (if line.getLast? = some '\n' then line.dropLast else line)) =
      trim line := by
    split_ifs with hlast
    · obtain ⟨before, rfl⟩ := List.getLast?_eq_some_iff.mp hlast
      rw [List.dropLast_concat]
      exact (trim_concat (by decide) before).symm
    · rfl
  obtain ⟨specs, activeTag, detectTag, lineBuffer⟩ := parser
  have htext := marks_pushText_nil { specs, activeTag, detectTag, lineBuffer } line
  unfold pushLine lineOutcome
  dsimp only
  rw [hslug]
  cases activeTag with
  | none =>
    dsimp only
    rw [matchOpen]
    cases hfind : specs.find? (·.openTag == trim line) with
    | none =>
      cases matchClose { specs, detectTag, lineBuffer } (trim line) with
      | none => exact ⟨rfl, htext⟩
      | some tag => exact ⟨rfl, htext⟩
    | some spec => exact ⟨rfl, rfl⟩
  | some tag =>
    dsimp only
    rw [matchClose]
    cases hfind : specs.find? (·.closeTag == trim line) with
    | none =>
      have hnone : ¬∃ spec ∈ specs, spec.tag = tag ∧ spec.closeTag = trim line := by
        rintro ⟨spec, hspec, -, hclose⟩
        simpa [hclose] using List.find?_eq_none.mp hfind spec hspec
      rw [if_neg hnone]
      exact ⟨rfl, htext⟩
    | some spec =>
      have hspec := List.mem_of_find?_eq_some hfind
      have hclose : spec.closeTag = trim line := by simpa using List.find?_some hfind
      rw [Option.map_some]
      dsimp only
      by_cases htag : tag = spec.tag
      · rw [if_pos htag, if_pos ⟨spec, hspec, htag.symm, hclose⟩, htag]
        exact ⟨rfl, rfl⟩
      · have hnone : ¬∃ spec ∈ specs, spec.tag = tag ∧ spec.closeTag = trim line := by
          rintro ⟨other, hother, rfl, hsame⟩
          exact htag (hapart other hother spec hspec (hsame.trans hclose.symm))
        rw [if_neg htag, if_neg hnone]
        exact ⟨rfl, htext⟩

/-! ### The middle of a line -/

namespace LineScan

/-- What a scan holds in the middle of a line, of which the line so far is `line`. -/
inductive Midline (specs : List (TagSpec T)) (activeTag : Option T) (line : Text)
    (scan : LineScan T) : Prop
  | held (hparser : scan.parser = { specs, activeTag, lineBuffer := line })
    (hmarks : scan.allMarks = [])
  | given (hparser : scan.parser = { specs, activeTag, detectTag := false })
    (hmarks : scan.allMarks = (textSegment activeTag line).marks)
    (hdisproved : Disproved specs line)

variable {scan : LineScan T}

lemma parseChar_held {ch : Char} (hch : ch ≠ '\n') :
    ({ parser := { specs, activeTag, lineBuffer := line } } : LineScan T).parseChar ch =
      if trimStart (line ++ [ch]) = [] ∨
          ({ specs, activeTag } : TaggedLineParser T).isTagPrefix (trimStart (line ++ [ch])) then
        { parser := { specs, activeTag, lineBuffer := line ++ [ch] } }
      else
        { parser := { specs, activeTag, detectTag := false }
          segments := pushText { specs, activeTag } (line ++ [ch]) [] } := by
  rw [parseChar, if_pos rfl, detectChar]
  unfold flush
  rw [if_pos rfl]
  dsimp only
  rw [if_neg hch]
  rfl

lemma parseChar_newline :
    ({ parser := { specs, activeTag, lineBuffer := line } } : LineScan T).parseChar '\n' =
      { parser := (pushLine { specs, activeTag } (line ++ ['\n']) []).1
        segments := (pushLine { specs, activeTag } (line ++ ['\n']) []).2 } := by
  rw [parseChar, if_pos rfl, detectChar]
  unfold flush
  rw [if_pos rfl]
  rfl

lemma parseChar_given (ch : Char) :
    ({ parser := { specs, activeTag, detectTag := false } } : LineScan T).parseChar ch =
      if ch = '\n' then
        { parser := { specs, activeTag }
          segments := pushText { specs, activeTag } [ch] [] }
      else { parser := { specs, activeTag, detectTag := false }, run := [ch] } := by
  rw [parseChar, if_neg Bool.false_ne_true]
  rfl

/-- A character that ends no line keeps the line back, or gives it away for good. -/
theorem Midline.parseChar (h : Midline specs activeTag line scan) {ch : Char} (hch : ch ≠ '\n') :
    Midline specs activeTag (line ++ [ch]) (scan.parseChar ch) := by
  have hafter := parseChar_after scan ch
  cases h with
  | held hparser hmarks =>
    rw [hparser, hmarks, parseChar_held hch] at hafter
    by_cases hprefix : trimStart (line ++ [ch]) = [] ∨
        ({ specs, activeTag } : TaggedLineParser T).isTagPrefix (trimStart (line ++ [ch]))
    · rw [if_pos hprefix] at hafter
      exact .held hafter.parser (hafter.marks.trans (marks_textSegment_nil activeTag))
    · rw [if_neg hprefix] at hafter
      obtain ⟨hne, hno⟩ := not_or.mp hprefix
      refine .given hafter.parser ?_ (disproved_of_isTagPrefix hne (by simpa using hno))
      rw [hafter.marks, allMarks, marks_pushText, marks_textSegment_nil]
      exact List.append_nil _
  | given hparser hmarks hdisproved =>
    rw [hparser, parseChar_given, if_neg hch] at hafter
    refine .given hafter.parser ?_ (hdisproved.append [ch])
    rw [hafter.marks, hmarks, marks_textSegment_append]
    rfl

lemma midline (h : '\n' ∉ line) :
    Midline specs activeTag line
      (line.foldl LineScan.parseChar { parser := { specs, activeTag } }) := by
  induction line using List.reverseRecOn with
  | nil => exact .held rfl (marks_textSegment_nil activeTag)
  | append_singleton line ch ih =>
    rw [List.mem_append, List.mem_singleton, not_or] at h
    rw [List.foldl_concat]
    exact (ih h.1).parseChar (Ne.symm h.2)

end LineScan

/-! ### Lines -/

lemma parse_line (hapart : ClosedApart specs) (h : '\n' ∉ line) :
    (parse { specs, activeTag } (line ++ ['\n'])).1 =
        { specs, activeTag := (lineOutcome specs activeTag (line ++ ['\n'])).activeTag } ∧
      marks (parse { specs, activeTag } (line ++ ['\n'])).2 =
        (lineOutcome specs activeTag (line ++ ['\n'])).marks := by
  rw [parse_fst, parse_marks, List.foldl_concat]
  have hmid := @LineScan.midline _ _ specs activeTag _ h
  generalize line.foldl LineScan.parseChar { parser := { specs, activeTag } } = scan at hmid
  have hafter := LineScan.parseChar_after scan '\n'
  cases hmid with
  | held hparser hmarks =>
    obtain ⟨hpushed, hpushedMarks⟩ := @pushLine_eq _ _ { specs, activeTag } hapart (line ++ ['\n'])
    rw [hparser, hmarks, LineScan.parseChar_newline] at hafter
    refine ⟨hafter.parser.trans hpushed, ?_⟩
    rw [hafter.marks, LineScan.allMarks, marks_textSegment_nil, List.append_nil, List.nil_append]
    exact hpushedMarks
  | given hparser hmarks hdisproved =>
    rw [hparser, LineScan.parseChar_given, if_pos rfl] at hafter
    rw [lineOutcome_of_disproved (hdisproved.append ['\n'])]
    refine ⟨hafter.parser, ?_⟩
    rw [hafter.marks, hmarks, LineScan.allMarks, marks_pushText, marks_textSegment_nil,
      List.append_nil, LineOutcome.marks, marks_textSegment_append]
    rfl

/-- What is left over at the end is parsed as a line, and an active tag is closed. -/
lemma marks_finish (parser : TaggedLineParser T) :
    marks parser.finish.2 =
      if parser.lineBuffer = [] then closing parser.activeTag
      else
        marks (pushLine { parser with lineBuffer := [] } parser.lineBuffer []).2 ++
          closing (pushLine { parser with lineBuffer := [] } parser.lineBuffer []).1.activeTag := by
  unfold finish
  split_ifs
  · dsimp only
    cases parser.activeTag with
    | none => rfl
    | some tag => rfl
  · generalize pushLine { parser with lineBuffer := [] } parser.lineBuffer [] = result
    obtain ⟨parser', segments⟩ := result
    dsimp only
    cases parser'.activeTag with
    | none => exact (List.append_nil _).symm
    | some tag => exact marks_pushSegment segments (.tagEnd tag)

lemma parse_last (hapart : ClosedApart specs) (h : '\n' ∉ line) (hne : line ≠ []) :
    marks (parse { specs, activeTag } line).2 ++
        marks (parse { specs, activeTag } line).1.finish.2 =
      (lineOutcome specs activeTag line).marks ++
        closing (lineOutcome specs activeTag line).activeTag := by
  rw [parse_fst, parse_marks]
  have hmid := @LineScan.midline _ _ specs activeTag _ h
  generalize line.foldl LineScan.parseChar { parser := { specs, activeTag } } = scan at hmid
  cases hmid with
  | held hparser hmarks =>
    obtain ⟨hpushed, hpushedMarks⟩ := @pushLine_eq _ _ { specs, activeTag } hapart line
    rw [hparser, hmarks, marks_finish, if_neg hne, hpushedMarks, hpushed]
    rfl
  | given hparser hmarks hdisproved =>
    rw [hparser, hmarks, marks_finish, if_pos rfl, lineOutcome_of_disproved hdisproved]
    rfl

/-- The parser is pushed chunks and finished. -/
def collect (parser : TaggedLineParser T) : List Text → List (TaggedLineSegment T)
  | [] => parser.finish.2
  | chunk :: chunks => (parser.parse chunk).2 ++ (parser.parse chunk).1.collect chunks

lemma marks_collect (parser : TaggedLineParser T) (chunks : List Text) :
    marks (parser.collect chunks) =
      marks (parser.parse chunks.flatten).2 ++ marks (parser.parse chunks.flatten).1.finish.2 := by
  induction chunks generalizing parser with
  | nil => rfl
  | cons chunk chunks ih =>
    obtain ⟨hparser, hmarks⟩ := marks_parse_append parser chunk chunks.flatten
    rw [collect, marks_append, ih, List.flatten_cons, hparser, hmarks, List.append_assoc]

lemma parse_lines (hapart : ClosedApart specs) {pieces : List Text}
    (hpieces : ∀ piece ∈ pieces, '\n' ∉ piece) {last : Text} (hlast : '\n' ∉ last)
    (activeTag : Option T) :
    marks (collect { specs, activeTag } [pieces.flatMap (· ++ ['\n']) ++ last]) =
      (lineOutcomes specs activeTag (pieces.map (· ++ ['\n']) ++
        if last = [] then [] else [last])).1.flatMap LineOutcome.marks ++
      closing (lineOutcomes specs activeTag (pieces.map (· ++ ['\n']) ++
        if last = [] then [] else [last])).2 := by
  rw [marks_collect, List.flatten_singleton]
  induction pieces generalizing activeTag with
  | nil =>
    rw [List.flatMap_nil, List.map_nil, List.nil_append, List.nil_append]
    split_ifs with hnil
    · rw [hnil]
      exact marks_finish { specs, activeTag }
    · rw [parse_last hapart hlast hnil]
      simp only [lineOutcomes, List.flatMap_cons, List.flatMap_nil, List.append_nil]
  | cons piece pieces ih =>
    obtain ⟨hpiece, hpieces⟩ := List.forall_mem_cons.mp hpieces
    obtain ⟨hparser, hmarks⟩ := @parse_line _ _ specs activeTag _ hapart hpiece
    obtain ⟨hrest, hrestMarks⟩ := marks_parse_append { specs, activeTag } (piece ++ ['\n'])
      (pieces.flatMap (· ++ ['\n']) ++ last)
    rw [List.flatMap_cons, List.append_assoc, hrest, hrestMarks, hparser, hmarks,
      List.append_assoc, ih hpieces, List.map_cons, List.cons_append, lineOutcomes,
      List.flatMap_cons, List.append_assoc]

lemma marks_collect_lines (specs : List (TagSpec T)) (hapart : ClosedApart specs)
    (chunks : List Text) :
    marks (collect { specs } chunks) =
      (lineOutcomes specs none (splitInclusive '\n' chunks.flatten)).1.flatMap LineOutcome.marks ++
        closing (lineOutcomes specs none (splitInclusive '\n' chunks.flatten)).2 := by
  obtain ⟨pieces, last, hsplit, hlast, hlines⟩ := exists_splitOn_eq '\n' chunks.flatten
  have hpieces : ∀ piece ∈ pieces, '\n' ∉ piece := fun piece hpiece =>
    not_mem_of_mem_splitOn (hsplit ▸ List.mem_append_left _ hpiece)
  have htext : chunks.flatten = pieces.flatMap (· ++ ['\n']) ++ last := by
    rw [← flatten_splitInclusive '\n' chunks.flatten, hlines, List.flatten_append, List.flatMap]
    split_ifs with hnil <;> simp [hnil]
  have hwhole := parse_lines hapart hpieces hlast none
  rw [← hlines, ← htext] at hwhole
  rw [← hwhole, marks_collect, marks_collect, List.flatten_singleton]

/-- **Every way to cut a text gives the outcomes of its lines**, which are the text, and
balanced. -/
theorem collect_eq_lineOutcomes (specs : List (TagSpec T)) (hapart : ClosedApart specs)
    (chunks : List Text) :
    marks (collect { specs } chunks) =
        (lineOutcomes specs none (splitInclusive '\n' chunks.flatten)).1.flatMap
            LineOutcome.marks ++
          closing (lineOutcomes specs none (splitInclusive '\n' chunks.flatten)).2 ∧
      Balanced none (marks (collect { specs } chunks)) ∧
      (lineOutcomes specs none (splitInclusive '\n' chunks.flatten)).1.flatMap LineOutcome.line =
        chunks.flatten := by
  rw [marks_collect_lines specs hapart, line_lineOutcomes, flatten_splitInclusive]
  exact ⟨rfl, balanced_lineOutcomes none _, rfl⟩

def blockSpec : TagSpec Unit := ⟨"<tag>".toList, "</tag>".toList, ()⟩

theorem collect_eq_lineOutcomes_blockSpec :
    ClosedApart [blockSpec] ∧
      Balanced none (marks (collect { specs := [blockSpec] }
        ["<t".toList, "ag>\n <tag".toList, "> \n</tag>\n<tag>".toList])) :=
  ⟨closedApart_singleton _, (collect_eq_lineOutcomes [blockSpec] (closedApart_singleton _) _).2.1⟩

end TaggedLineParser

end Codex.StreamParser
