import Codex.Lib.SplitInclusive
import Codex.Lib.Text

/-!
# Where a streamed table starts

`tui/src/table_detect.rs` and `tui/src/streaming/table_holdback.rs`: the detection of pipe tables
and fenced code in single lines, and the scanner that decides from which offset on a streamed source
is held back. Offsets count characters where the source counts bytes; they only cut the source at
the starts of its lines.
-/

namespace Codex.Streaming

open Codex.Lib

/-- `str::strip_suffix` of one character. -/
def stripSuffix (c : Char) (s : Text) : Option Text :=
  if s.getLast? = some c then some s.dropLast else none

/-! ### Pipe tables -/

/-- A text before the first of a list of segments. -/
def beforeFirst (s : Text) : List Text → List Text
  | [] => [s]
  | segment :: segments => (s ++ segment) :: segments

def splitUnescapedPipe : Text → List Text
  | [] => [[]]
  | ['\\'] => [['\\']]
  | '\\' :: c :: content => beforeFirst ['\\', c] (splitUnescapedPipe content)
  | '|' :: content => [] :: splitUnescapedPipe content
  | c :: content => beforeFirst [c] (splitUnescapedPipe content)

variable (line : Text)

def parseTableSegments : Option (List Text) :=
  let trimmed := trim line
  if trimmed = [] then none
  else
    let hasOuterPipe := startsWith trimmed ['|'] || endsWith trimmed ['|']
    let content := (stripPrefix ['|'] trimmed).getD trimmed
    let content := (stripSuffix '|' content).getD content
    let rawSegments := splitUnescapedPipe content
    if !hasOuterPipe && decide (rawSegments.length ≤ 1) then none
    else
      let segments := rawSegments.map trim
      if segments = [] then none else some segments

def isTableHeaderLine : Bool :=
  (parseTableSegments line).any fun segments => segments.any fun segment => !segment.isEmpty

def isTableDelimiterSegment (segment : Text) : Bool :=
  let trimmed := trim segment
  if trimmed = [] then false
  else
    let withoutLeading := (stripPrefix [':'] trimmed).getD trimmed
    let withoutEnds := (stripSuffix ':' withoutLeading).getD withoutLeading
    decide (3 ≤ withoutEnds.length) && withoutEnds.all (· == '-')

def isTableDelimiterLine : Bool :=
  (parseTableSegments line).any fun segments => segments.all isTableDelimiterSegment

/-- The loop of `strip_blockquote_prefix`; each turn removes a character -/
def stripBlockquoteMarkers : ℕ → Text → Text
  | 0, rest => rest
  | turns + 1, rest =>
    match stripPrefix ['>'] rest with
    | none => rest
    | some stripped =>
      stripBlockquoteMarkers turns (trimStart ((stripPrefix [' '] stripped).getD stripped))

def stripBlockquotePrefix : Text :=
  let rest := trimStart line
  stripBlockquoteMarkers rest.length rest

/-! ### Fenced code -/

inductive FenceKind where
  | outside
  | markdown
  | other
  deriving DecidableEq

/-- `FenceTracker`; the marker's character, its length and the kind of the open fence -/
structure FenceTracker where
  state : Option (Char × ℕ × FenceKind) := none

def parseFenceMarker : Text → Option (Char × ℕ)
  | [] => none
  | first :: line =>
    if first ≠ '\x60' ∧ first ≠ '~' then none
    else
      let len := ((first :: line).takeWhile (· == first)).length
      if len < 3 then none else some (first, len)

def isMarkdownFenceInfo (trimmedLine : Text) (markerLen : ℕ) : Bool :=
  let info := (trimStart (trimmedLine.drop markerLen)).takeWhile fun c => !isWhitespace c
  eqIgnoreAsciiCase info "md".toList || eqIgnoreAsciiCase info "markdown".toList

def FenceTracker.kind (tracker : FenceTracker) : FenceKind :=
  match tracker.state with
  | none => .outside
  | some (_, _, kind) => kind

def FenceTracker.advance (tracker : FenceTracker) (rawLine : Text) : FenceTracker :=
  let leadingSpaces := (rawLine.takeWhile (· == ' ')).length
  if 3 < leadingSpaces then tracker
  else
    let fenceScanText := stripBlockquotePrefix (rawLine.drop leadingSpaces)
    match parseFenceMarker fenceScanText with
    | none => tracker
    | some (marker, len) =>
      match tracker.state with
      | some (openChar, openLen, _) =>
        if marker = openChar ∧ openLen ≤ len ∧ trim (fenceScanText.drop len) = [] then
          { state := none }
        else tracker
      | none =>
        let kind := if isMarkdownFenceInfo fenceScanText len then .markdown else .other
        { state := some (marker, len, kind) }

/-! ### The scanner -/

inductive TableHoldbackState where
  | none
  | pendingHeader (headerStart : ℕ)
  | confirmed (tableStart : ℕ)
  deriving DecidableEq

structure PreviousLineState where
  sourceStart : ℕ
  fenceKind : FenceKind
  isHeader : Bool

structure TableHoldbackScanner where
  sourceOffset : ℕ := 0
  fenceTracker : FenceTracker := {}
  previousLine : Option PreviousLineState := none
  pendingHeaderStart : Option ℕ := none
  confirmedTableStart : Option ℕ := none

def tableCandidateText : Option Text :=
  let stripped := trim (stripBlockquotePrefix line)
  (parseTableSegments stripped).map fun _ => stripped

namespace TableHoldbackScanner

variable (scanner : TableHoldbackScanner)

def state : TableHoldbackState :=
  match scanner.confirmedTableStart, scanner.pendingHeaderStart with
  | some tableStart, _ => .confirmed tableStart
  | none, some headerStart => .pendingHeader headerStart
  | none, none => .none

/-- The first `if` of `push_line` -/
def confirmTable (fenceKind : FenceKind) (isDelimiter : Bool) : TableHoldbackScanner :=
  match scanner.previousLine with
  | some previousLine =>
    if scanner.confirmedTableStart.isNone ∧ previousLine.fenceKind ≠ .other ∧
        fenceKind ≠ .other ∧ previousLine.isHeader ∧ isDelimiter then
      { scanner with
        confirmedTableStart := some previousLine.sourceStart
        pendingHeaderStart := none }
    else scanner
  | none => scanner

/-- The second `if` of `push_line` -/
def trackHeader (line : Text) (fenceKind : FenceKind) (isHeader : Bool) : TableHoldbackScanner :=
  if scanner.confirmedTableStart.isNone ∧ trim line ≠ [] then
    { scanner with
      pendingHeaderStart :=
        if fenceKind ≠ .other ∧ isHeader then some scanner.sourceOffset else none }
  else scanner

def pushLine (sourceLine : Text) : TableHoldbackScanner :=
  let line := (stripSuffix '\n' sourceLine).getD sourceLine
  let fenceKind := scanner.fenceTracker.kind
  let candidateText := if fenceKind = .other then none else tableCandidateText line
  let isHeader := candidateText.any isTableHeaderLine
  let isDelimiter := candidateText.any isTableDelimiterLine
  let scanner := (scanner.confirmTable fenceKind isDelimiter).trackHeader line fenceKind isHeader
  { scanner with
    previousLine := some ⟨scanner.sourceOffset, fenceKind, isHeader⟩
    fenceTracker := scanner.fenceTracker.advance line
    sourceOffset := scanner.sourceOffset + sourceLine.length }

def pushSourceChunk (sourceChunk : Text) : TableHoldbackScanner :=
  (splitInclusive '\n' sourceChunk).foldl pushLine scanner

end TableHoldbackScanner

/-- The scanner after a whole source. -/
def scanSource (source : Text) : TableHoldbackScanner :=
  ({} : TableHoldbackScanner).pushSourceChunk source

lemma scanSource_append {source : Text} (h : Terminated '\n' source) (chunk : Text) :
    scanSource (source ++ chunk) = (scanSource source).pushSourceChunk chunk := by
  rw [scanSource, TableHoldbackScanner.pushSourceChunk, splitInclusive_append h, List.foldl_append]
  rfl

/-! ### Where the holdback starts -/

lemma tableCandidateText_blank {line : Text} (h : trim line = []) :
    tableCandidateText line = none := by
  have hstart : trimStart line = [] := by
    by_contra hne
    have hlast : ∀ c ∈ trimStart line, isWhitespace c = true := by
      rw [trim, trimEnd, List.rdropWhile_eq_nil_iff] at h
      exact h
    obtain ⟨c, rest, hc⟩ := List.exists_cons_of_ne_nil hne
    have hhead := List.head?_dropWhile_not isWhitespace line
    rw [← trimStart, hc, List.head?_cons] at hhead
    exact absurd (hlast c (hc ▸ List.mem_cons_self)) (Bool.eq_false_iff.mp hhead)
  rw [tableCandidateText, stripBlockquotePrefix, hstart]
  rfl

namespace TableHoldbackScanner

variable (scanner : TableHoldbackScanner)

/-- The offset from which on the source is held back. -/
def holdbackStart : Option ℕ :=
  scanner.confirmedTableStart.or scanner.pendingHeaderStart

/-- A header line is held back until it is confirmed. -/
def HoldsHeader : Prop :=
  ∀ previousLine, scanner.previousLine = some previousLine → previousLine.isHeader = true →
    scanner.confirmedTableStart = none → scanner.pendingHeaderStart = some previousLine.sourceStart

variable {scanner : TableHoldbackScanner}

/-- A table is confirmed where its header was held back. -/
theorem holdbackStart_confirmTable (h : scanner.HoldsHeader) (fenceKind : FenceKind)
    (isDelimiter : Bool) :
    (scanner.confirmTable fenceKind isDelimiter).holdbackStart = scanner.holdbackStart := by
  rw [confirmTable]
  split
  next previousLine hprevious =>
    split_ifs with hconfirm
    · obtain ⟨hnone, -, -, hheader, -⟩ := hconfirm
      rw [Option.isNone_iff_eq_none] at hnone
      rw [holdbackStart, holdbackStart, hnone, h previousLine hprevious hheader hnone]
      rfl
    · rfl
  next => rfl

variable (scanner)

lemma sourceOffset_confirmTable (fenceKind : FenceKind) (isDelimiter : Bool) :
    (scanner.confirmTable fenceKind isDelimiter).sourceOffset = scanner.sourceOffset := by
  rw [confirmTable]
  split
  · split_ifs <;> rfl
  · rfl

lemma sourceOffset_trackHeader (line : Text) (fenceKind : FenceKind) (isHeader : Bool) :
    (scanner.trackHeader line fenceKind isHeader).sourceOffset = scanner.sourceOffset := by
  rw [trackHeader]
  split_ifs <;> rfl

variable {scanner}

lemma holdbackStart_trackHeader {line : Text} {fenceKind : FenceKind} {isHeader : Bool}
    {start : ℕ} (h : (scanner.trackHeader line fenceKind isHeader).holdbackStart = some start) :
    scanner.holdbackStart = some start ∨ start = scanner.sourceOffset := by
  rw [trackHeader] at h
  by_cases hblank : scanner.confirmedTableStart.isNone ∧ trim line ≠ []
  · rw [if_pos hblank] at h
    obtain ⟨hnone, -⟩ := hblank
    rw [Option.isNone_iff_eq_none] at hnone
    rw [holdbackStart, hnone, Option.none_or] at h
    dsimp only at h
    split_ifs at h
    exact Or.inr (Option.some.inj h).symm
  · rw [if_neg hblank] at h
    exact Or.inl h

lemma sourceOffset_pushLine (scanner : TableHoldbackScanner) (sourceLine : Text) :
    (scanner.pushLine sourceLine).sourceOffset = scanner.sourceOffset + sourceLine.length := by
  rw [pushLine]
  dsimp only
  rw [sourceOffset_trackHeader, sourceOffset_confirmTable]

/-- A header line is held back, unless a table is confirmed. -/
theorem pendingHeaderStart_trackHeader {line : Text} {fenceKind : FenceKind}
    (hblank : trim line ≠ []) (hfence : fenceKind ≠ .other)
    (hnone : (scanner.trackHeader line fenceKind true).confirmedTableStart = none) :
    (scanner.trackHeader line fenceKind true).pendingHeaderStart = some scanner.sourceOffset := by
  rw [trackHeader] at hnone ⊢
  by_cases hconfirmed : scanner.confirmedTableStart.isNone
  · rw [if_pos ⟨hconfirmed, hblank⟩]
    exact if_pos ⟨hfence, rfl⟩
  · rw [if_neg fun h => hconfirmed h.1] at hnone
    exact absurd (Option.isNone_iff_eq_none.mpr hnone) hconfirmed

lemma HoldsHeader.pushLine (scanner : TableHoldbackScanner) (sourceLine : Text) :
    (scanner.pushLine sourceLine).HoldsHeader := by
  intro previousLine hprevious hheader hnone
  rw [TableHoldbackScanner.pushLine] at hprevious hnone ⊢
  dsimp only at hprevious hnone ⊢
  cases hprevious
  dsimp only at hheader ⊢
  rw [hheader] at hnone ⊢
  have hfence : scanner.fenceTracker.kind ≠ .other := by
    intro hkind
    simp [if_pos hkind] at hheader
  have hblank : trim ((stripSuffix '\n' sourceLine).getD sourceLine) ≠ [] := by
    intro htrim
    simp [if_neg hfence, tableCandidateText_blank htrim] at hheader
  rw [pendingHeaderStart_trackHeader hblank hfence hnone, sourceOffset_trackHeader]

/-- One line moves the holdback to itself, or leaves it or ends it. -/
theorem holdbackStart_pushLine (h : scanner.HoldsHeader) {sourceLine : Text} {start : ℕ}
    (hstart : (scanner.pushLine sourceLine).holdbackStart = some start) :
    scanner.holdbackStart = some start ∨ start = scanner.sourceOffset := by
  rcases holdbackStart_trackHeader hstart with hsame | hnew
  · rw [holdbackStart_confirmTable h] at hsame
    exact Or.inl hsame
  · rw [sourceOffset_confirmTable] at hnew
    exact Or.inr hnew

lemma sourceOffset_foldl (scanner : TableHoldbackScanner) (lines : List Text) :
    (lines.foldl pushLine scanner).sourceOffset = scanner.sourceOffset + lines.flatten.length := by
  induction lines generalizing scanner with
  | nil => rfl
  | cons line lines ih =>
    rw [List.foldl_cons, ih, sourceOffset_pushLine, List.flatten_cons, List.length_append,
      Nat.add_assoc]

lemma HoldsHeader.foldl (h : scanner.HoldsHeader) (lines : List Text) :
    (lines.foldl TableHoldbackScanner.pushLine scanner).HoldsHeader := by
  induction lines generalizing scanner with
  | nil => exact h
  | cons line lines ih => exact ih (HoldsHeader.pushLine scanner line)

/-- A holdback that was not there before starts at a line that was pushed since. -/
theorem holdbackStart_foldl (h : scanner.HoldsHeader) {lines : List Text} {start : ℕ}
    (hstart : (lines.foldl pushLine scanner).holdbackStart = some start) :
    scanner.holdbackStart = some start ∨
      ∃ before after, lines = before ++ after ∧
        start = scanner.sourceOffset + before.flatten.length := by
  induction lines generalizing scanner with
  | nil => exact Or.inl hstart
  | cons line lines ih =>
    rcases ih (HoldsHeader.pushLine scanner line) hstart with hbefore | hsince
    · rcases holdbackStart_pushLine h hbefore with hsame | hnew
      · exact Or.inl hsame
      · exact Or.inr ⟨[], line :: lines, rfl, hnew⟩
    · obtain ⟨before, after, hlines, hnew⟩ := hsince
      refine Or.inr ⟨line :: before, after, by rw [hlines, List.cons_append], ?_⟩
      rw [hnew, sourceOffset_pushLine, List.flatten_cons, List.length_append, Nat.add_assoc]

end TableHoldbackScanner

open TableHoldbackScanner

lemma holdsHeader_new : ({} : TableHoldbackScanner).HoldsHeader :=
  fun _ hprevious => absurd hprevious nofun

lemma sourceOffset_scanSource (source : Text) :
    (scanSource source).sourceOffset = source.length := by
  rw [scanSource, pushSourceChunk, sourceOffset_foldl, flatten_splitInclusive, Nat.zero_add]

/-- Where an appended chunk moves the holdback, it starts at a line of the chunk. -/
theorem holdbackStart_scanSource {source chunk : Text} (hsource : Terminated '\n' source)
    (hchunk : Terminated '\n' chunk) {start : ℕ}
    (hstart : (scanSource (source ++ chunk)).holdbackStart = some start) :
    (scanSource source).holdbackStart = some start ∨
      ∃ before after, chunk = before ++ after ∧ Terminated '\n' before ∧
        start = (source ++ before).length := by
  have hholds : (scanSource source).HoldsHeader := holdsHeader_new.foldl _
  rw [scanSource_append hsource] at hstart
  rcases holdbackStart_foldl hholds hstart with hsame | ⟨before, after, hlines, hnew⟩
  · exact Or.inl hsame
  · refine Or.inr ⟨before.flatten, after.flatten, ?_, ?_, ?_⟩
    · rw [← List.flatten_append, ← hlines, flatten_splitInclusive]
    · apply Terminated.flatten
      intro line hline
      exact hchunk.of_mem_splitInclusive (hlines ▸ List.mem_append_left _ hline)
    · rw [hnew, sourceOffset_scanSource, List.length_append]

lemma exists_of_holdbackStart {source : Text} (hsource : Terminated '\n' source) {start : ℕ}
    (hstart : (scanSource source).holdbackStart = some start) :
    ∃ before after, source = before ++ after ∧ Terminated '\n' before ∧ start = before.length := by
  have hempty : Terminated '\n' ([] : Text) := Terminated.nil
  exact (holdbackStart_scanSource hempty hsource hstart).resolve_left nofun

end Codex.Streaming
