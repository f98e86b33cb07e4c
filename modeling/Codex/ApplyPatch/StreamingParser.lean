import Codex.Lib.Result
import Codex.Lib.Text

/-!
# The streaming patch parser

`apply-patch/src/parser.rs` (the data types and markers) and
`apply-patch/src/streaming_parser.rs` (the line-driven state machine), as explicit state passing:
`processLine` is one step of the machine, `pushDelta` feeds characters and runs a step at every
line feed, `finish` handles the unterminated last line.

A `&mut self` method that can fail becomes a function into `Except ParseError`; the state after a
failure is not kept, since every caller of the crate drops the parser there. `PathBuf` values built
from patch text are the text itself.
-/

namespace Codex.ApplyPatch

open Codex.Lib

/-! ### Hunks and errors (`parser.rs`) -/

/-- A path as written in a patch.
Source: `PathBuf::from(path)` -/
abbrev PathBuf := Text

/-- `parser.rs`, `UpdateFileChunk` -/
structure UpdateFileChunk where
  /-- A single line of context that narrows down the position of the chunk. -/
  changeContext : Option Text
  /-- The contiguous block of lines to be replaced by `newLines`. -/
  oldLines : List Text
  newLines : List Text
  /-- If set, `oldLines` must occur at the end of the source file. -/
  isEndOfFile : Bool
  deriving DecidableEq

/-- `parser.rs`, `Hunk` -/
inductive Hunk where
  | addFile (path : PathBuf) (contents : Text)
  | deleteFile (path : PathBuf)
  | updateFile (path : PathBuf) (movePath : Option PathBuf) (chunks : List UpdateFileChunk)
  deriving DecidableEq

/-- `parser.rs`, `ParseError` -/
inductive ParseError where
  | invalidPatchError (message : Text)
  | invalidHunkError (message : Text) (lineNumber : ℕ)
  deriving DecidableEq

def beginPatchMarker : Text := "*** Begin Patch".toList
def endPatchMarker : Text := "*** End Patch".toList
def addFileMarker : Text := "*** Add File: ".toList
def deleteFileMarker : Text := "*** Delete File: ".toList
def updateFileMarker : Text := "*** Update File: ".toList
def moveToMarker : Text := "*** Move to: ".toList
def eofMarker : Text := "*** End of File".toList
def changeContextMarker : Text := "@@ ".toList
def emptyChangeContextMarker : Text := "@@".toList
def environmentIdMarker : Text := "*** Environment ID:".toList

/-! ### The messages -/

def firstLineMessage : Text := "The first line of the patch must be '*** Begin Patch'".toList

def lastLineMessage : Text := "The last line of the patch must be '*** End Patch'".toList

def invalidHeaderMessage (trimmed : Text) : Text :=
  "'".toList ++ trimmed ++ ("' is not a valid hunk header. Valid hunk headers: " ++
    "'*** Add File: \x7bpath\x7d', '*** Delete File: \x7bpath\x7d', " ++
    "'*** Update File: \x7bpath\x7d'").toList

def emptyUpdateMessage (path : PathBuf) : Text :=
  "Update file hunk for path '".toList ++ path ++ "' is empty".toList

def noLinesMessage : Text := "Update hunk does not contain any lines".toList

def unexpectedLineMessage (line : Text) : Text :=
  "Unexpected line found in update hunk: '".toList ++ line ++
    ("'. Every line should start with ' ' (context line), '+' (added line), " ++
      "or '-' (removed line)").toList

def expectedContextMessage (line : Text) : Text :=
  "Expected update hunk to start with a @@ context marker, got: '".toList ++ line ++ "'".toList

/-! ### The parser state -/

/-- `streaming_parser.rs`, `StreamingParserMode` -/
inductive Mode where
  | notStarted
  | startedPatch
  | addFile
  | deleteFile
  | updateFile (hunkLineNumber : ℕ)
  | endedPatch
  deriving DecidableEq

/-- The parser: the unterminated line, the mode, the hunks read so far, the environment id and the
number of lines processed.
Source: `streaming_parser.rs`, `StreamingPatchParser` with its `StreamingParserState` -/
structure StreamingPatchParser where
  lineBuffer : Text := []
  mode : Mode := .notStarted
  hunks : List Hunk := []
  environmentId : Option Text := none
  lineNumber : ℕ := 0

/-- A chunk opened by a header or by a first line: no lines yet. -/
def UpdateFileChunk.opened (context : Option Text) : UpdateFileChunk :=
  { changeContext := context, oldLines := [], newLines := [], isEndOfFile := false }

variable (chunk : UpdateFileChunk)

/-- `chunk.old_lines.is_empty() && chunk.new_lines.is_empty()` -/
def UpdateFileChunk.hasNoLines : Bool :=
  chunk.oldLines.isEmpty && chunk.newLines.isEmpty

/-- Append lines to a chunk. -/
def UpdateFileChunk.push (old new : List Text) : UpdateFileChunk :=
  { chunk with oldLines := chunk.oldLines ++ old, newLines := chunk.newLines ++ new }

/-- Replace the last element of a list, `*list.last_mut() = x`. -/
def setLast {α : Type} (l : List α) (x : α) : List α := l.dropLast ++ [x]

namespace StreamingPatchParser

variable (p : StreamingPatchParser) (line : Text)

def ensureUpdateHunkIsNotEmpty : Except ParseError Unit :=
  match p.hunks.getLast? with
  | some (.updateFile path _ chunks) =>
    match chunks.getLast? with
    | none =>
      match p.mode with
      | .updateFile hunkLineNumber =>
        .error (.invalidHunkError (emptyUpdateMessage path) hunkLineNumber)
      | _ => .ok ()
    | some chunk =>
      if chunk.hasNoLines then
        if line = endPatchMarker then .error (.invalidHunkError noLinesMessage p.lineNumber)
        else .error (.invalidHunkError (unexpectedLineMessage line) p.lineNumber)
      else .ok ()
  | _ => .ok ()

/-- What a header line asks for. -/
inductive Header where
  | environmentId (text : Text)
  | endPatch
  | hunk (hunk : Hunk) (mode : Mode)

/-- The header a trimmed line is, if any; the environment id only directly after the begin marker.
Source: the conditions of `handle_hunk_headers_and_end_patch`, in their order -/
def header (trimmed : Text) : Option Header :=
  match (if p.mode = .startedPatch then stripPrefix environmentIdMarker trimmed else none) with
  | some environmentId => some (.environmentId environmentId)
  | none =>
    if trimmed = endPatchMarker then some .endPatch
    else match stripPrefix addFileMarker trimmed with
    | some path => some (.hunk (.addFile path []) .addFile)
    | none => match stripPrefix deleteFileMarker trimmed with
      | some path => some (.hunk (.deleteFile path) .deleteFile)
      | none => match stripPrefix updateFileMarker trimmed with
        | some path => some (.hunk (.updateFile path none []) (.updateFile p.lineNumber))
        | none => none

/-- `some p'` is `Ok(true)` with the state changed to `p'`; `none` is `Ok(false)`, which leaves the
state alone.
Source: `handle_hunk_headers_and_end_patch` -/
def handleHunkHeadersAndEndPatch (trimmed : Text) :
    Except ParseError (Option StreamingPatchParser) :=
  match p.header trimmed with
  | some (.environmentId environmentId) =>
    if p.environmentId.isSome then
      .error (.invalidPatchError
        "apply_patch environment_id cannot be specified more than once".toList)
    else if trim environmentId = [] then
      .error (.invalidPatchError "apply_patch environment_id cannot be empty".toList)
    else .ok (some { p with environmentId := some (trim environmentId) })
  | some .endPatch => do
      p.ensureUpdateHunkIsNotEmpty trimmed
      return some { p with mode := .endedPatch }
  | some (.hunk hunk mode) => do
      p.ensureUpdateHunkIsNotEmpty trimmed
      return some { p with hunks := p.hunks ++ [hunk], mode := mode }
  | none => .ok none

/-- What a line inside an update hunk does to it. -/
inductive UpdateLine where
  /-- a blank line after an end-of-file marker -/
  | ignored
  | moveTo (path : PathBuf)
  | openChunk (context : Option Text)
  | endOfFile
  /-- lines added to the old and to the new side of the open chunk -/
  | change (old new : List Text)

/-- `update_line == "@@" || update_line.starts_with("@@ ")` -/
def isChangeContext (updateLine : Text) : Bool :=
  updateLine == emptyChangeContextMarker || startsWith updateLine changeContextMarker

/-- A line of an update hunk that is no marker: blank lines and lines after a space are context.
Source: the end of the `UpdateFile` branch of `process_line` -/
def readChangeLine (lineNumber : ℕ) (last : Option UpdateFileChunk) (line : Text) :
    Except ParseError UpdateLine :=
  match line with
  | [] => .ok (.change [[]] [[]])
  | ' ' :: lineToAdd => .ok (.change [lineToAdd] [lineToAdd])
  | '+' :: lineToAdd => .ok (.change [] [lineToAdd])
  | '-' :: lineToRemove => .ok (.change [lineToRemove] [])
  | _ =>
    if last.any (!·.hasNoLines) then
      .error (.invalidHunkError (expectedContextMessage line) lineNumber)
    else .error (.invalidHunkError (unexpectedLineMessage line) lineNumber)

/-- Read a line inside an update hunk that is no hunk header, given the hunk's move target and its
last chunk.
Source: `process_line`, `StreamingParserMode::UpdateFile`, after the header check -/
def readUpdateLine (lineNumber : ℕ) (movePath : Option PathBuf) (last : Option UpdateFileChunk)
    (line : Text) : Except ParseError UpdateLine :=
  let updateLine := trimEnd line
  if last.any (·.isEndOfFile) && updateLine.isEmpty then .ok .ignored
  else if last.any (·.isEndOfFile) && !isChangeContext updateLine then
    .error (.invalidHunkError (expectedContextMessage line) lineNumber)
  else match (if last.isNone && movePath.isNone then stripPrefix moveToMarker updateLine
      else none) with
  | some moveToPath => .ok (.moveTo moveToPath)
  | none =>
    if isChangeContext updateLine && last.any (·.hasNoLines) then
      .error (.invalidHunkError (unexpectedLineMessage line) lineNumber)
    else if updateLine = emptyChangeContextMarker then .ok (.openChunk none)
    else match stripPrefix changeContextMarker updateLine with
    | some changeContext => .ok (.openChunk (some changeContext))
    | none =>
      if updateLine = eofMarker then
        if last.any (·.hasNoLines) then .error (.invalidHunkError noLinesMessage lineNumber)
        else .ok .endOfFile
      else readChangeLine lineNumber last line

/-- The chunks after a line: a change goes to the last chunk, or to a fresh one without context
when there is none; an end-of-file marker before any chunk changes nothing. -/
def UpdateLine.chunks (chunks : List UpdateFileChunk) : UpdateLine → List UpdateFileChunk
  | .ignored | .moveTo _ => chunks
  | .openChunk context => chunks ++ [.opened context]
  | .endOfFile =>
    match chunks.getLast? with
    | some chunk => setLast chunks { chunk with isEndOfFile := true }
    | none => chunks
  | .change old new =>
    match chunks.getLast? with
    | some chunk => setLast chunks (chunk.push old new)
    | none => [(UpdateFileChunk.opened none).push old new]

/-- The move target after a line. -/
def UpdateLine.movePath (movePath : Option PathBuf) : UpdateLine → Option PathBuf
  | .moveTo path => some path
  | _ => movePath

def processLine : Except ParseError StreamingPatchParser :=
  let trimmed := trim line
  match p.mode with
  | .notStarted =>
    if trimmed = beginPatchMarker then .ok { p with mode := .startedPatch }
    else .error (.invalidPatchError firstLineMessage)
  | .startedPatch | .deleteFile => do
      match ← p.handleHunkHeadersAndEndPatch trimmed with
      | some p' => return p'
      | none => .error (.invalidHunkError (invalidHeaderMessage trimmed) p.lineNumber)
  | .addFile => do
      match ← p.handleHunkHeadersAndEndPatch trimmed with
      | some p' => return p'
      | none =>
        match line, p.hunks.getLast? with
        | '+' :: lineToAdd, some (.addFile path contents) =>
          return { p with
            hunks := setLast p.hunks (.addFile path (contents ++ lineToAdd ++ ['\n'])) }
        | _, _ => .error (.invalidHunkError (invalidHeaderMessage trimmed) p.lineNumber)
  | .updateFile _ => do
      match ← p.handleHunkHeadersAndEndPatch (trimEnd line) with
      | some p' => return p'
      | none =>
        match p.hunks.getLast? with
        | some (.updateFile path movePath chunks) =>
          let effect ← readUpdateLine p.lineNumber movePath chunks.getLast? line
          return { p with
            hunks := setLast p.hunks
              (.updateFile path (effect.movePath movePath) (effect.chunks chunks)) }
        | _ => .error (.invalidHunkError (unexpectedLineMessage line) p.lineNumber)
  | .endedPatch =>
    if trimmed = [] then .ok p else .error (.invalidPatchError lastLineMessage)

/-- Count the line, then process it. -/
def stepLine : Except ParseError StreamingPatchParser :=
  processLine { p with lineNumber := p.lineNumber + 1 } line

/-- The characters of a delta, one at a time: a line feed ends the buffered line, one carriage
return before it is dropped.
Source: the loop of `push_delta` -/
def feed (p : StreamingPatchParser) : Text → Except ParseError StreamingPatchParser
  | [] => .ok p
  | '\n' :: rest => do
      let p' ← stepLine { p with lineBuffer := [] } (stripCr p.lineBuffer)
      feed p' rest
  | ch :: rest => feed { p with lineBuffer := p.lineBuffer ++ [ch] } rest

def pushDelta (delta : Text) : Except ParseError (List Hunk × StreamingPatchParser) := do
  let p' ← p.feed delta
  return (p'.hunks, p')

/-- The unterminated last line. The end marker is accepted here in any mode.
Source: `finish`, the `line_buffer` branch -/
def finishLine : Except ParseError StreamingPatchParser :=
  if p.lineBuffer.isEmpty then .ok p
  else do
    let line := p.lineBuffer
    let p := { p with lineBuffer := [], lineNumber := p.lineNumber + 1 }
    if trim line = endPatchMarker then do
      p.ensureUpdateHunkIsNotEmpty (trim line)
      return { p with mode := .endedPatch }
    else p.processLine line

def finish : Except ParseError (List Hunk × StreamingPatchParser) := do
  let p ← p.finishLine
  if p.mode = .endedPatch then return (p.hunks, p)
  else .error (.invalidPatchError lastLineMessage)

/-! ### What a step can do -/

variable {p p' : StreamingPatchParser} {line trimmed : Text}

lemma handleHunkHeadersAndEndPatch_eq_none :
    p.handleHunkHeadersAndEndPatch trimmed = .ok none ↔ p.header trimmed = none := by
  unfold handleHunkHeadersAndEndPatch
  rcases p.header trimmed with _ | ⟨_ | _ | _⟩
  · simp
  · dsimp only
    split_ifs <;> simp
  all_goals
    cases p.ensureUpdateHunkIsNotEmpty trimmed <;> simp

/-- A handled header, by kind: an environment id is stored, the end marker ends the patch, a hunk
header opens a hunk. The last two only after the hunk that ends there passed its check. -/
theorem handleHunkHeadersAndEndPatch_cases
    (h : p.handleHunkHeadersAndEndPatch trimmed = .ok (some p')) :
    (∃ text, p.header trimmed = some (.environmentId text) ∧ p.environmentId = none ∧
      trim text ≠ [] ∧ p' = { p with environmentId := some (trim text) }) ∨
    (p.header trimmed = some .endPatch ∧ p.ensureUpdateHunkIsNotEmpty trimmed = .ok () ∧
      p' = { p with mode := .endedPatch }) ∨
    (∃ hunk mode, p.header trimmed = some (.hunk hunk mode) ∧
      p.ensureUpdateHunkIsNotEmpty trimmed = .ok () ∧
      p' = { p with hunks := p.hunks ++ [hunk], mode := mode }) := by
  unfold handleHunkHeadersAndEndPatch at h
  rcases hh : p.header trimmed with _ | ⟨text | _ | ⟨hunk, mode⟩⟩
  · simp [hh] at h
  · simp only [hh] at h
    split_ifs at h with henv htext
    refine .inl ⟨text, rfl, by simpa using henv, htext, ?_⟩
    simpa using h.symm
  · simp only [hh, bind_eq_ok] at h
    obtain ⟨_, he, hp'⟩ := h
    exact .inr (.inl ⟨rfl, he, by simpa using hp'.symm⟩)
  · simp only [hh, bind_eq_ok] at h
    obtain ⟨_, he, hp'⟩ := h
    exact .inr (.inr ⟨hunk, mode, rfl, he, by simpa using hp'.symm⟩)

variable (p)

/-- The part of a line that is compared with the header markers: inside an update hunk leading
whitespace counts. -/
def headerText (line : Text) : Text :=
  match p.mode with
  | .updateFile _ => trimEnd line
  | _ => trim line

/-- A line of an added file: `+` and its text, appended to the hunk that is open. -/
def AddedLine (line : Text) (p' : StreamingPatchParser) : Prop :=
  ∃ text path contents, line = '+' :: text ∧ p.hunks.getLast? = some (.addFile path contents) ∧
    p' = { p with hunks := setLast p.hunks (.addFile path (contents ++ text ++ ['\n'])) }

/-- A line of an update hunk, with its effect on the hunk that is open. -/
def UpdatedBy (line : Text) (p' : StreamingPatchParser) : Prop :=
  ∃ path movePath chunks effect,
    p.hunks.getLast? = some (.updateFile path movePath chunks) ∧
    readUpdateLine p.lineNumber movePath chunks.getLast? line = .ok effect ∧
    p' = { p with
      hunks := setLast p.hunks
        (.updateFile path (effect.movePath movePath) (effect.chunks chunks)) }

variable {p}

/-- One step of the machine that succeeds: the begin marker, a header, a line of an added file, a
line of an update hunk, or a blank line after the end marker. -/
theorem processLine_cases (h : p.processLine line = .ok p') :
    (p.mode = .notStarted ∧ trim line = beginPatchMarker ∧ p' = { p with mode := .startedPatch }) ∨
    (p.mode ≠ .notStarted ∧ p.mode ≠ .endedPatch ∧
      p.handleHunkHeadersAndEndPatch (p.headerText line) = .ok (some p')) ∨
    (p.mode = .addFile ∧ p.header (p.headerText line) = none ∧ p.AddedLine line p') ∨
    ((∃ n, p.mode = .updateFile n) ∧ p.header (p.headerText line) = none ∧ p.UpdatedBy line p') ∨
    (p.mode = .endedPatch ∧ trim line = [] ∧ p' = p) := by
  have handled : ∀ {s : Text} {f : Option StreamingPatchParser → Except ParseError _},
      (p.handleHunkHeadersAndEndPatch s >>= f) = .ok p' → (∀ q, f (some q) = .ok q) →
      p.handleHunkHeadersAndEndPatch s = .ok (some p') ∨
        p.header s = none ∧ f none = .ok p' := by
    intro s f hs hf
    obtain ⟨_ | q, hq, hfq⟩ := bind_eq_ok.mp hs
    · exact .inr ⟨handleHunkHeadersAndEndPatch_eq_none.mp hq, hfq⟩
    · rw [hf q] at hfq
      cases hfq
      exact .inl hq
  unfold processLine at h
  rcases hm : p.mode with _ | _ | _ | _ | n | _
  · simp only [hm] at h
    split_ifs at h with ht
    exact .inl ⟨rfl, ht, by simpa using h.symm⟩
  · simp only [hm] at h
    rcases handled h (fun _ => rfl) with hp | ⟨-, hnone⟩
    · exact .inr (.inl ⟨by simp, by simp, by simpa [headerText, hm] using hp⟩)
    · cases hnone
  · simp only [hm] at h
    rcases handled h (fun _ => rfl) with hp | ⟨hhead, hnone⟩
    · exact .inr (.inl ⟨by simp, by simp, by simpa [headerText, hm] using hp⟩)
    · refine .inr (.inr (.inl ⟨rfl, by simpa [headerText, hm] using hhead, ?_⟩))
      dsimp only at hnone
      split at hnone
      · rename_i text path contents hlast
        exact ⟨text, path, contents, rfl, hlast, by simpa [hm] using hnone.symm⟩
      · cases hnone
  · simp only [hm] at h
    rcases handled h (fun _ => rfl) with hp | ⟨-, hnone⟩
    · exact .inr (.inl ⟨by simp, by simp, by simpa [headerText, hm] using hp⟩)
    · cases hnone
  · simp only [hm] at h
    rcases handled h (fun _ => rfl) with hp | ⟨hhead, hnone⟩
    · exact .inr (.inl ⟨by simp, by simp, by simpa [headerText, hm] using hp⟩)
    · refine .inr (.inr (.inr (.inl ⟨⟨n, rfl⟩, by simpa [headerText, hm] using hhead, ?_⟩)))
      dsimp only at hnone
      split at hnone
      · rename_i path movePath chunks hlast
        obtain ⟨effect, hr, hp'⟩ := bind_eq_ok.mp hnone
        exact ⟨path, movePath, chunks, effect, hlast, hr, by simpa [hm] using hp'.symm⟩
      · cases hnone
  · simp only [hm] at h
    split_ifs at h with ht
    exact .inr (.inr (.inr (.inr ⟨rfl, ht, by simpa using h.symm⟩)))

lemma processLine_of_header (hn : p.mode ≠ .notStarted) (he : p.mode ≠ .endedPatch)
    (h : p.handleHunkHeadersAndEndPatch (p.headerText line) = .ok (some p')) :
    p.processLine line = .ok p' := by
  unfold headerText at h
  unfold processLine
  rcases hm : p.mode with _ | _ | _ | _ | n | _
  · exact absurd hm hn
  · simp only [hm] at h ⊢
    simp [h]
  · simp only [hm] at h ⊢
    simp [h]
  · simp only [hm] at h ⊢
    simp [h]
  · simp only [hm] at h ⊢
    simp [h]
  · exact absurd hm he

lemma processLine_of_addedLine (hm : p.mode = .addFile)
    (hh : p.header (p.headerText line) = none) (h : p.AddedLine line p') :
    p.processLine line = .ok p' := by
  obtain ⟨text, path, contents, rfl, hlast, rfl⟩ := h
  rw [← handleHunkHeadersAndEndPatch_eq_none] at hh
  simp only [headerText, hm] at hh
  simp [processLine, hm, hh, hlast]

lemma processLine_of_updatedBy {n : ℕ} (hm : p.mode = .updateFile n)
    (hh : p.header (p.headerText line) = none) (h : p.UpdatedBy line p') :
    p.processLine line = .ok p' := by
  obtain ⟨path, movePath, chunks, effect, hlast, hr, rfl⟩ := h
  rw [← handleHunkHeadersAndEndPatch_eq_none] at hh
  simp only [headerText, hm] at hh
  simp [processLine, hm, hh, hlast, hr]

/-- A step reads the line it is given, never the buffer. -/
theorem processLine_lineBuffer (h : p.processLine line = .ok p') :
    p'.lineBuffer = p.lineBuffer := by
  rcases processLine_cases h with ⟨-, -, rfl⟩ | ⟨-, -, hh⟩ | ⟨-, -, _, _, _, -, -, rfl⟩ |
    ⟨-, -, _, _, _, _, -, -, rfl⟩ | ⟨-, -, rfl⟩
  · rfl
  · rcases handleHunkHeadersAndEndPatch_cases hh with ⟨_, -, -, -, rfl⟩ | ⟨-, -, rfl⟩ |
      ⟨_, _, -, -, rfl⟩ <;> rfl
  all_goals rfl

end StreamingPatchParser

end Codex.ApplyPatch
