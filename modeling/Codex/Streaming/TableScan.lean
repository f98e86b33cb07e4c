import Codex.Streaming.TableHoldback

/-!
# The scan of a whole source for tables

`parse_lines_with_fence_state` and `table_holdback_state` of `tui/src/streaming/table_holdback.rs`,
which look at a whole source, and that the scanner comes to the same state line by line.

* `Scans.foldl_pushSourceChunk`: the scanner knows of the lines what the whole scan finds in them;
* `state_foldl_pushSourceChunk`: the two agree on every way of cutting the source at its line ends.
-/

namespace Codex.Streaming

open Codex.Lib

/-! ### The whole scan -/

structure ParsedLine where
  text : Text
  fenceContext : FenceKind
  sourceStart : ℕ

/-- What the loop of `parse_lines_with_fence_state` carries along. -/
structure LineParser where
  tracker : FenceTracker := {}
  lines : List ParsedLine := []
  sourceStart : ℕ := 0

/-- The body of the loop in `parse_lines_with_fence_state` -/
def LineParser.push (parser : LineParser) (rawLine : Text) : LineParser :=
  { lines := parser.lines ++ [⟨rawLine, parser.tracker.kind, parser.sourceStart⟩]
    tracker := parser.tracker.advance rawLine
    sourceStart := parser.sourceStart + rawLine.length + 1 }

def parseLinesWithFenceState (source : Text) : List ParsedLine :=
  ((source.splitOn '\n').foldl LineParser.push {}).lines

/-- The tests on a pair of lines in `table_holdback_state` -/
def confirmsTable (headerLine delimiterLine : ParsedLine) : Bool :=
  if headerLine.fenceContext = .other ∨ delimiterLine.fenceContext = .other then false
  else
    match tableCandidateText headerLine.text, tableCandidateText delimiterLine.text with
    | some headerText, some delimiterText =>
      isTableHeaderLine headerText && isTableDelimiterLine delimiterText
    | _, _ => false

variable (lines : List ParsedLine)

/-- The loop over the windows in `table_holdback_state` -/
def confirmedTable : Option ℕ :=
  ((lines.zip lines.tail).find? fun (headerLine, delimiterLine) =>
    confirmsTable headerLine delimiterLine).map fun (headerLine, _) => headerLine.sourceStart

/-- A line that is not fenced off and may be the header of a table. -/
def ParsedLine.isHeader (line : ParsedLine) : Bool :=
  decide (line.fenceContext ≠ .other) && (tableCandidateText line.text).any isTableHeaderLine

/-- The last non-blank line in `table_holdback_state` -/
def pendingHeader : Option ℕ :=
  (lines.reverse.find? fun line => decide (trim line.text ≠ [])).bind fun line =>
    if line.isHeader then some line.sourceStart else none

/-- The end of `table_holdback_state`, from what was found in the lines -/
def foundTable (confirmed pending : Option ℕ) : TableHoldbackState :=
  match confirmed, pending with
  | some tableStart, _ => .confirmed tableStart
  | none, some headerStart => .pendingHeader headerStart
  | none, none => .none

def tableHoldbackState (source : Text) : TableHoldbackState :=
  let lines := parseLinesWithFenceState source
  foundTable (confirmedTable lines) (pendingHeader lines)

/-! ### One line more -/

section concat

variable {lines : List ParsedLine} {line : ParsedLine}

lemma isHeader_of_confirmsTable {headerLine delimiterLine : ParsedLine} :
    confirmsTable headerLine delimiterLine =
      (headerLine.isHeader && (decide (delimiterLine.fenceContext ≠ .other) &&
        (tableCandidateText delimiterLine.text).any isTableDelimiterLine)) := by
  rw [confirmsTable, ParsedLine.isHeader]
  by_cases hheader : headerLine.fenceContext = .other
  · simp [hheader]
  by_cases hdelimiter : delimiterLine.fenceContext = .other
  · simp [hdelimiter]
  cases tableCandidateText headerLine.text <;>
    cases tableCandidateText delimiterLine.text <;> simp [hheader, hdelimiter]

variable (lines)

lemma zip_tail_concat (line : ParsedLine) :
    (lines ++ [line]).zip (lines ++ [line]).tail =
      lines.zip lines.tail ++ (lines.getLast?.map fun last => (last, line)).toList := by
  induction lines with
  | nil => rfl
  | cons first lines ih =>
    cases lines with
    | nil => rfl
    | cons second lines =>
      rw [List.getLast?_cons_cons]
      exact congrArg ((first, second) :: ·) ih

/-- A table that is found stays the first; else the new line may end the first pair. -/
theorem confirmedTable_concat (line : ParsedLine) :
    confirmedTable (lines ++ [line]) = (confirmedTable lines).or
      (lines.getLast?.bind fun last =>
        if confirmsTable last line then some last.sourceStart else none) := by
  rw [confirmedTable, zip_tail_concat, List.find?_append, confirmedTable]
  cases (lines.zip lines.tail).find? fun (headerLine, delimiterLine) =>
      confirmsTable headerLine delimiterLine with
  | some pair => rfl
  | none =>
    cases lines.getLast? with
    | none => rfl
    | some last =>
      simp only [Option.map_some, Option.toList_some, List.find?_singleton, Option.none_or,
        Option.map_none, Option.bind_some]
      split_ifs <;> rfl

lemma pendingHeader_concat (line : ParsedLine) :
    pendingHeader (lines ++ [line]) =
      if trim line.text = [] then pendingHeader lines
      else if line.isHeader then some line.sourceStart else none := by
  rw [pendingHeader, List.reverse_append, List.reverse_singleton, List.singleton_append,
    List.find?_cons]
  by_cases hblank : trim line.text = []
  · simp [hblank, pendingHeader]
  · simp [hblank]

variable {lines}

lemma foundTable_concat_empty (h : line.text = []) :
    foundTable (confirmedTable (lines ++ [line])) (pendingHeader (lines ++ [line])) =
      foundTable (confirmedTable lines) (pendingHeader lines) := by
  have hdelimiter : ∀ last, confirmsTable last line = false := by
    intro last
    rw [isHeader_of_confirmsTable, h, tableCandidateText_blank rfl]
    simp
  have hconfirmed : confirmedTable (lines ++ [line]) = confirmedTable lines := by
    rw [confirmedTable_concat]
    cases lines.getLast? <;> simp [hdelimiter]
  rw [hconfirmed, pendingHeader_concat, if_pos (by rw [h]; rfl)]

end concat

/-! ### The scanner knows the lines -/

/-- What the scanner keeps of the lines that were parsed. -/
structure Scans (scanner : TableHoldbackScanner) (parser : LineParser) : Prop where
  fenceTracker : scanner.fenceTracker = parser.tracker
  confirmed : scanner.confirmedTableStart = confirmedTable parser.lines
  pending : confirmedTable parser.lines = none →
    scanner.pendingHeaderStart = pendingHeader parser.lines
  previous : scanner.previousLine = parser.lines.getLast?.map fun line =>
    ⟨line.sourceStart, line.fenceContext, line.isHeader⟩

variable (scanner : TableHoldbackScanner)

lemma fenceTracker_trackHeader (line : Text) (fenceKind : FenceKind) (isHeader : Bool) :
    (scanner.trackHeader line fenceKind isHeader).fenceTracker = scanner.fenceTracker := by
  rw [TableHoldbackScanner.trackHeader]
  split_ifs <;> rfl

lemma fenceTracker_confirmTable (fenceKind : FenceKind) (isDelimiter : Bool) :
    (scanner.confirmTable fenceKind isDelimiter).fenceTracker = scanner.fenceTracker := by
  rw [TableHoldbackScanner.confirmTable]
  split
  · split_ifs <;> rfl
  · rfl

lemma confirmedTableStart_trackHeader (line : Text) (fenceKind : FenceKind) (isHeader : Bool) :
    (scanner.trackHeader line fenceKind isHeader).confirmedTableStart =
      scanner.confirmedTableStart := by
  rw [TableHoldbackScanner.trackHeader]
  split_ifs <;> rfl

namespace Scans

open TableHoldbackScanner

variable {scanner : TableHoldbackScanner} {parser : LineParser}

lemma new : Scans {} {} := ⟨rfl, rfl, fun _ => rfl, rfl⟩

variable (h : Scans scanner parser)
include h

lemma state_eq :
    scanner.state = foundTable (confirmedTable parser.lines) (pendingHeader parser.lines) := by
  rw [TableHoldbackScanner.state, h.confirmed]
  cases hconfirmed : confirmedTable parser.lines with
  | some tableStart => rfl
  | none =>
    rw [h.pending hconfirmed]
    rfl

/-- The scanner confirms a table where the new line ends the first pair. -/
theorem confirmTable (line : ParsedLine) :
    let isDelimiter := decide (line.fenceContext ≠ .other) &&
      (tableCandidateText line.text).any isTableDelimiterLine
    (scanner.confirmTable line.fenceContext isDelimiter).confirmedTableStart =
        confirmedTable (parser.lines ++ [line]) ∧
      (confirmedTable (parser.lines ++ [line]) = none →
        scanner.confirmTable line.fenceContext isDelimiter = scanner) := by
  intro isDelimiter
  rw [confirmedTable_concat, ← h.confirmed, TableHoldbackScanner.confirmTable, h.previous]
  cases hlast : parser.lines.getLast? with
  | none => exact ⟨by simp, fun _ => rfl⟩
  | some last =>
    simp only [Option.map_some, Option.bind_some]
    cases hconfirmed : scanner.confirmedTableStart with
    | some tableStart =>
        exact ⟨by simp [hconfirmed], fun hnone => absurd hnone (Option.some_ne_none _)⟩
    | none =>
      have hiff : (((none : Option ℕ).isNone = true) ∧ last.fenceContext ≠ .other ∧
          line.fenceContext ≠ .other ∧ last.isHeader = true ∧ isDelimiter = true) ↔
            confirmsTable last line = true := by
        rw [isHeader_of_confirmsTable]
        simp only [ParsedLine.isHeader, isDelimiter, Bool.and_eq_true, decide_eq_true_eq]
        exact ⟨fun hc => hc.2.2.2, fun hc => ⟨rfl, hc.1.1, hc.2.1, hc⟩⟩
      by_cases hpair : confirmsTable last line = true
      · rw [if_pos (hiff.mpr hpair), if_pos hpair]
        exact ⟨rfl, fun hnone => absurd hnone (Option.some_ne_none _)⟩
      · rw [if_neg fun hc => hpair (hiff.mp hc), if_neg hpair]
        exact ⟨hconfirmed, fun _ => rfl⟩

/-- **A pushed line is the next line of the parsed ones.** -/
theorem pushLine (hoffset : scanner.sourceOffset = parser.sourceStart)
    {sourceLine line : Text} (hstrip : (stripSuffix '\n' sourceLine).getD sourceLine = line) :
    Scans (scanner.pushLine sourceLine) (parser.push line) := by
  set next : ParsedLine := ⟨line, parser.tracker.kind, parser.sourceStart⟩ with hnext
  have hkind : scanner.fenceTracker.kind = next.fenceContext := by rw [h.fenceTracker]
  -- what the scanner finds in the line
  have hcandidate : ∀ isLine : Text → Bool,
      (if next.fenceContext = .other then none else tableCandidateText line).any isLine =
        (decide (next.fenceContext ≠ .other) && (tableCandidateText line).any isLine) := by
    intro isLine
    by_cases hother : next.fenceContext = .other
    · simp [hother]
    · simp [hother]
  have hheader : (if next.fenceContext = .other then none else tableCandidateText line).any
      isTableHeaderLine = next.isHeader := hcandidate _
  obtain ⟨hconfirmed, hsame⟩ := h.confirmTable next
  simp only [TableHoldbackScanner.pushLine, hstrip, hkind, hheader,
    hcandidate] at hconfirmed hsame ⊢
  refine ⟨?_, ?_, fun hnone => ?_, ?_⟩
  · rw [fenceTracker_trackHeader, fenceTracker_confirmTable, h.fenceTracker]
    rfl
  · rw [confirmedTableStart_trackHeader]
    exact hconfirmed
  · have hbefore : confirmedTable parser.lines = none := by
      have hconcat := confirmedTable_concat parser.lines next
      rw [show parser.lines ++ [next] = (parser.push line).lines from rfl, hnone] at hconcat
      exact (Option.or_eq_none_iff.mp hconcat.symm).1
    have hpending : pendingHeader (parser.push line).lines =
        if trim line = [] then pendingHeader parser.lines
        else if next.isHeader then some parser.sourceStart else none :=
      pendingHeader_concat parser.lines next
    rw [hsame hnone, TableHoldbackScanner.trackHeader, hpending, h.confirmed, hbefore]
    by_cases hblank : trim line = []
    · rw [if_neg fun hc => hc.2 hblank, if_pos hblank]
      exact h.pending hbefore
    · rw [if_pos ⟨rfl, hblank⟩, if_neg hblank, hoffset]
      have hfence : (next.fenceContext ≠ .other ∧ next.isHeader = true) ↔ next.isHeader = true := by
        rw [ParsedLine.isHeader, Bool.and_eq_true, decide_eq_true_eq]
        exact ⟨And.right, fun hc => ⟨hc.1, hc⟩⟩
      exact if_congr hfence rfl rfl
  · rw [sourceOffset_trackHeader, sourceOffset_confirmTable, hoffset]
    have hlast : (parser.push line).lines.getLast? = some next := List.getLast?_concat
    rw [hlast]
    rfl

omit h

lemma stripSuffix_concat (c : Char) (s : Text) : stripSuffix c (s ++ [c]) = some s := by
  rw [stripSuffix, List.getLast?_concat, if_pos rfl, List.dropLast_concat]

lemma foldl (h : Scans scanner parser) (hoffset : scanner.sourceOffset = parser.sourceStart)
    (lines : List Text) :
    let scanner' := (lines.map (· ++ ['\n'])).foldl TableHoldbackScanner.pushLine scanner
    let parser' := lines.foldl LineParser.push parser
    Scans scanner' parser' ∧ scanner'.sourceOffset = parser'.sourceStart := by
  induction lines generalizing scanner parser with
  | nil => exact ⟨h, hoffset⟩
  | cons line lines ih =>
    refine ih (h.pushLine hoffset (by rw [stripSuffix_concat, Option.getD_some])) ?_
    rw [sourceOffset_pushLine, hoffset, List.length_append, List.length_singleton,
      LineParser.push, Nat.add_assoc]

end Scans

open TableHoldbackScanner

/-- **The scanner comes to the state that the whole scan finds.** -/
theorem state_scanSource (source : Text) :
    (scanSource source).state = tableHoldbackState source := by
  obtain ⟨lines, last, hsplit, hlast, hpieces⟩ := exists_splitOn_eq '\n' source
  obtain ⟨hscans, hoffset⟩ := Scans.new.foldl rfl lines
  have hparsed : parseLinesWithFenceState source =
      ((lines.foldl LineParser.push {}).push last).lines := by
    rw [parseLinesWithFenceState, hsplit, List.foldl_append]
    rfl
  rw [scanSource, pushSourceChunk, hpieces, List.foldl_append, tableHoldbackState, hparsed]
  by_cases hnil : last = []
  · -- the piece after the last line feed is no line of the scanner
    rw [if_pos hnil, List.foldl_nil, hscans.state_eq]
    exact (foundTable_concat_empty hnil).symm
  · have hstrip : (stripSuffix '\n' last).getD last = last := by
      have hend : last.getLast? ≠ some '\n' := fun h => hlast (List.mem_of_getLast? h)
      rw [stripSuffix, if_neg hend, Option.getD_none]
    rw [if_neg hnil, List.foldl_cons, List.foldl_nil]
    exact (hscans.pushLine hoffset hstrip).state_eq

/-! ### Chunks -/

/-- Chunks that end at line ends are scanned like the source they make up. -/
theorem foldl_pushSourceChunk {chunks : List Text}
    (h : ∀ chunk ∈ chunks.dropLast, Terminated '\n' chunk) (scanner : TableHoldbackScanner) :
    chunks.foldl pushSourceChunk scanner = scanner.pushSourceChunk chunks.flatten := by
  induction chunks generalizing scanner with
  | nil => rfl
  | cons chunk chunks ih =>
    cases chunks with
    | nil => rw [List.flatten_singleton]; rfl
    | cons next chunks =>
      rw [List.dropLast_cons_cons] at h
      obtain ⟨hchunk, hchunks⟩ := List.forall_mem_cons.mp h
      have hsource : (chunk :: next :: chunks).flatten = chunk ++ (next :: chunks).flatten :=
        List.flatten_cons
      rw [List.foldl_cons, ih hchunks, hsource, pushSourceChunk, pushSourceChunk,
        pushSourceChunk, splitInclusive_append hchunk, List.foldl_append]

variable {tableStart : ℕ}

lemma confirmedTableStart_pushLine {scanner : TableHoldbackScanner}
    (h : scanner.confirmedTableStart = some tableStart) (sourceLine : Text) :
    (scanner.pushLine sourceLine).confirmedTableStart = some tableStart := by
  have hsame : ∀ fenceKind isDelimiter, scanner.confirmTable fenceKind isDelimiter = scanner := by
    intro fenceKind isDelimiter
    rw [confirmTable, h]
    split
    · exact if_neg fun hc => absurd hc.1 Bool.false_ne_true
    · rfl
  rw [pushLine]
  dsimp only
  rw [confirmedTableStart_trackHeader, hsame, h]

lemma confirmedTableStart_foldl {scanner : TableHoldbackScanner}
    (h : scanner.confirmedTableStart = some tableStart) (chunks : List Text) :
    (chunks.foldl pushSourceChunk scanner).confirmedTableStart = some tableStart := by
  have hlines : ∀ (lines : List Text) {scanner : TableHoldbackScanner},
      scanner.confirmedTableStart = some tableStart →
        (lines.foldl pushLine scanner).confirmedTableStart = some tableStart := by
    intro lines
    induction lines with
    | nil => exact id
    | cons line lines ih => exact fun h => ih (confirmedTableStart_pushLine h line)
  induction chunks generalizing scanner with
  | nil => exact h
  | cons chunk chunks ih => exact ih (hlines (splitInclusive '\n' chunk) h)

lemma state_eq_confirmed {scanner : TableHoldbackScanner} :
    scanner.state = .confirmed tableStart ↔ scanner.confirmedTableStart = some tableStart := by
  rw [TableHoldbackScanner.state]
  cases scanner.confirmedTableStart <;> cases scanner.pendingHeaderStart <;> simp

/-- **The incremental scanner equals the whole scan**, however the source is cut at its line ends,
and a table that is confirmed after some chunks stays where it is. -/
theorem state_foldl_pushSourceChunk {chunks : List Text}
    (h : ∀ chunk ∈ chunks.dropLast, Terminated '\n' chunk) :
    (chunks.foldl pushSourceChunk {}).state = tableHoldbackState chunks.flatten ∧
      ∀ before after tableStart, chunks = before ++ after →
        (before.foldl pushSourceChunk {}).state = .confirmed tableStart →
          (chunks.foldl pushSourceChunk {}).state = .confirmed tableStart := by
  constructor
  · rw [foldl_pushSourceChunk h]
    exact state_scanSource _
  · rintro before after tableStart rfl hstate
    rw [List.foldl_append]
    exact state_eq_confirmed.mpr (confirmedTableStart_foldl (state_eq_confirmed.mp hstate) after)

/-- A header is held back, and the table is confirmed when its delimiter comes in the next chunk. -/
theorem state_foldl_pushSourceChunk_split :
    ([['a', '\n', '|', 'b', '|', '\n'], "|---|".toList].foldl pushSourceChunk {}).state =
        tableHoldbackState (['a', '\n', '|', 'b', '|', '\n'] ++ "|---|".toList) ∧
      tableHoldbackState (['a', '\n', '|', 'b', '|', '\n'] ++ "|---|".toList) = .confirmed 2 := by
  have hchunks : ∀ chunk ∈ [['a', '\n', '|', 'b', '|', '\n'], "|---|".toList].dropLast,
      Terminated '\n' chunk := by
    intro chunk hchunk
    rw [List.mem_singleton.mp hchunk]
    exact Terminated.concat ['a', '\n', '|', 'b', '|']
  exact ⟨(state_foldl_pushSourceChunk hchunks).1, by decide +kernel⟩

end Codex.Streaming
