import Codex.ApplyPatch.Parser
import Codex.Lib.Run

/-!
# Patches written by the grammar

The grammar in the module comment of `parser.rs`, as trees (`HunkText`) with their text
(`patchText`) and the hunk they stand for (`HunkText.hunk`):

    start: begin_patch environment_id? hunk+ end_patch
    add_hunk: "*** Add File: " filename LF add_line+
    delete_hunk: "*** Delete File: " filename LF
    update_hunk: "*** Update File: " filename LF change_move? change?
    change: (change_context | change_line)+ eof_line?

A list of hunks has many texts: the context lines of a chunk can stand anywhere between its removed
and added lines, and the `@@` line of a first chunk without context can be left out. The parser
reads every one of them back (`parsePatch_patchText`), provided each chunk has a line: a chunk of a
context alone is in the grammar and is refused (`parsePatch_contextOnly`).

The proof runs the machine over the lines of the text with the triples of `Lib.Run`: a header opens
a hunk, each line of it does its part, and between two hunks the state is `Between`.
-/

namespace Codex.ApplyPatch

open Codex.Lib StreamingPatchParser

/-! ### Trees of the grammar -/

inductive ChangeLine where
  | context (text : Text)
  | removed (text : Text)
  | added (text : Text)

namespace ChangeLine

def line : ChangeLine → Text
  | context text => ' ' :: text
  | removed text => '-' :: text
  | added text => '+' :: text

def oldLines : ChangeLine → List Text
  | context text | removed text => [text]
  | added _ => []

def newLines : ChangeLine → List Text
  | context text | added text => [text]
  | removed _ => []

end ChangeLine

/-- One chunk: its context, its change lines and whether an `eof_line` follows. -/
structure ChunkText where
  context : Option Text
  changes : List ChangeLine
  isEndOfFile : Bool

/-- `change_context` -/
def contextLine : Option Text → Text
  | none => emptyChangeContextMarker
  | some context => changeContextMarker ++ context

namespace ChunkText

/-- The lines of a chunk; its context line can be left out. -/
def lines (omitContext : Bool) (c : ChunkText) : List Text :=
  (if omitContext then [] else [contextLine c.context]) ++ c.changes.map (·.line) ++
    (if c.isEndOfFile then [eofMarker] else [])

def chunk (c : ChunkText) : UpdateFileChunk where
  changeContext := c.context
  oldLines := c.changes.flatMap (·.oldLines)
  newLines := c.changes.flatMap (·.newLines)
  isEndOfFile := c.isEndOfFile

end ChunkText

/-- `hunk`. `omitContext` leaves out the context line of the first chunk, where that chunk
has no context. -/
inductive HunkText where
  | addFile (path : PathBuf) (contents : Text)
  | deleteFile (path : PathBuf)
  | updateFile (path : PathBuf) (movePath : Option PathBuf) (omitContext : Bool)
      (chunks : List ChunkText)

/-- The lines of the contents of an added file, without their line feeds. -/
def contentLines (contents : Text) : List Text := (contents.splitOn '\n').dropLast

/-- `change` -/
def changeLines (omitContext : Bool) : List ChunkText → List Text
  | [] => []
  | c :: cs => c.lines (omitContext && c.context.isNone) ++ cs.flatMap (·.lines false)

namespace HunkText

def lines : HunkText → List Text
  | addFile path contents => (addFileMarker ++ path) :: (contentLines contents).map ('+' :: ·)
  | deleteFile path => [deleteFileMarker ++ path]
  | updateFile path movePath omitContext chunks =>
    (updateFileMarker ++ path) :: (movePath.toList.map (moveToMarker ++ ·) ++
      changeLines omitContext chunks)

/-- The hunk a tree stands for. -/
def hunk : HunkText → Hunk
  | addFile path contents => .addFile path contents
  | deleteFile path => .deleteFile path
  | updateFile path movePath _ chunks => .updateFile path movePath (chunks.map (·.chunk))

end HunkText

variable (environmentId : Option Text)

/-- The lines of a patch before its end marker. -/
def patchLines (hunks : List HunkText) : List Text :=
  beginPatchMarker :: (environmentId.toList.map (environmentIdMarker ++ ' ' :: ·) ++
    hunks.flatMap (·.lines))

/-- The text of a patch. Source: `start` -/
def patchText (hunks : List HunkText) : Text :=
  joinLines (patchLines environmentId hunks ++ [endPatchMarker])

/-! ### What can be written -/

/-- A file name: not empty, on one line, no whitespace at its end. -/
def PathOk (path : PathBuf) : Prop := path ≠ [] ∧ '\n' ∉ path ∧ NoTrailingWhitespace path

/-- A content line: no line feed and no carriage return. -/
def LineOk (line : Text) : Prop := '\r' ∉ line ∧ '\n' ∉ line

/-- A chunk context: not blank, on one line, no whitespace at its end. -/
def ContextOk (context : Text) : Prop :=
  trim context ≠ [] ∧ '\n' ∉ context ∧ NoTrailingWhitespace context

/-- The contents of an added file are lines, each with its line feed. -/
def ContentsOk (contents : Text) : Prop := '\r' ∉ contents ∧ ∀ c ∈ contents.getLast?, c = '\n'

def UpdateFileChunk.Writable (chunk : UpdateFileChunk) : Prop :=
  (∀ context ∈ chunk.changeContext, ContextOk context) ∧
    ∀ line ∈ chunk.oldLines ++ chunk.newLines, LineOk line

/-- The hunks that the grammar can write. -/
def Hunk.Writable : Hunk → Prop
  | .addFile path contents => PathOk path ∧ ContentsOk contents
  | .deleteFile path => PathOk path
  | .updateFile path movePath chunks =>
    PathOk path ∧ (∀ target ∈ movePath, PathOk target) ∧ chunks ≠ [] ∧
      ∀ chunk ∈ chunks, chunk.Writable

instance (path : PathBuf) : Decidable (PathOk path) := inferInstanceAs (Decidable (_ ∧ _ ∧ _))

instance (line : Text) : Decidable (LineOk line) := inferInstanceAs (Decidable (_ ∧ _))

instance (context : Text) : Decidable (ContextOk context) := inferInstanceAs (Decidable (_ ∧ _ ∧ _))

instance (contents : Text) : Decidable (ContentsOk contents) := inferInstanceAs (Decidable (_ ∧ _))

instance (chunk : UpdateFileChunk) : Decidable chunk.Writable := inferInstanceAs (Decidable (_ ∧ _))

instance : DecidablePred Hunk.Writable
  | .addFile path contents => inferInstanceAs (Decidable (PathOk path ∧ ContentsOk contents))
  | .deleteFile path => inferInstanceAs (Decidable (PathOk path))
  | .updateFile path movePath chunks => inferInstanceAs (Decidable (PathOk path ∧
      (∀ target ∈ movePath, PathOk target) ∧ chunks ≠ [] ∧ ∀ chunk ∈ chunks, chunk.Writable))

/-- No chunk of the hunk is a context alone. -/
def Hunk.HasLines : Hunk → Prop
  | .updateFile _ _ chunks => ∀ chunk ∈ chunks, chunk.hasNoLines = false
  | _ => True

instance : DecidablePred Hunk.HasLines
  | .updateFile _ _ chunks =>
    inferInstanceAs (Decidable (∀ chunk ∈ chunks, chunk.hasNoLines = false))
  | .addFile _ _ | .deleteFile _ => inferInstanceAs (Decidable True)

/-- An environment id: not empty, on one line, no whitespace around it. -/
def EnvironmentIdOk (environmentId : Text) : Prop :=
  environmentId ≠ [] ∧ '\n' ∉ environmentId ∧ NoSurroundingWhitespace environmentId

namespace StreamingPatchParser

variable {p p' : StreamingPatchParser} {hs : List Hunk} {env : Option Text}

/-! ### Where a run stands -/

/-- A hunk that may end here: an update hunk whose last chunk has lines, or any other hunk. -/
def Complete : Hunk → Prop
  | .updateFile _ _ chunks => ∃ chunk, chunks.getLast? = some chunk ∧ chunk.hasNoLines = false
  | _ => True

/-- Inside the patch, at a place where the next hunk or the end marker can stand. -/
structure Between (hs : List Hunk) (env : Option Text) (p : StreamingPatchParser) : Prop where
  hunks : p.hunks = hs
  environmentId : p.environmentId = env
  started : p.mode ≠ .notStarted
  notEnded : p.mode ≠ .endedPatch
  complete : ∀ hunk ∈ hs.getLast?, Complete hunk

/-- Inside the hunk of an added file. -/
structure InAdd (hs : List Hunk) (env : Option Text) (path : PathBuf) (contents : Text)
    (p : StreamingPatchParser) : Prop where
  hunks : p.hunks = hs ++ [.addFile path contents]
  environmentId : p.environmentId = env
  mode : p.mode = .addFile

/-- Inside an update hunk, with the chunks read so far. -/
structure InUpdate (hs : List Hunk) (env : Option Text) (path : PathBuf)
    (movePath : Option PathBuf) (chunks : List UpdateFileChunk) (p : StreamingPatchParser) :
    Prop where
  hunks : p.hunks = hs ++ [.updateFile path movePath chunks]
  environmentId : p.environmentId = env
  mode : ∃ n, p.mode = .updateFile n

lemma Between.ensureUpdateHunkIsNotEmpty (h : Between hs env p) (s : Text) :
    p.ensureUpdateHunkIsNotEmpty s = .ok () := by
  have hc := h.complete
  rw [← h.hunks] at hc
  unfold StreamingPatchParser.ensureUpdateHunkIsNotEmpty
  rcases hl : p.hunks.getLast? with _ | ⟨_ | _ | ⟨path, movePath, chunks⟩⟩
  · rfl
  · rfl
  · rfl
  · obtain ⟨chunk, hchunk, hlines⟩ := hc _ hl
    simp [hchunk, hlines]

variable {path : PathBuf} {chunks : List UpdateFileChunk} {movePath : Option PathBuf}

lemma InAdd.between {contents : Text} (h : InAdd hs env path contents p) :
    Between (hs ++ [.addFile path contents]) env p where
  hunks := h.hunks
  environmentId := h.environmentId
  started := by simp [h.mode]
  notEnded := by simp [h.mode]
  complete := by simp [Complete]

lemma InUpdate.between {chunk : UpdateFileChunk} (h : InUpdate hs env path movePath chunks p)
    (hlast : chunks.getLast? = some chunk) (hlines : chunk.hasNoLines = false) :
    Between (hs ++ [.updateFile path movePath chunks]) env p := by
  obtain ⟨n, hmode⟩ := h.mode
  refine ⟨h.hunks, h.environmentId, by simp [hmode], by simp [hmode], ?_⟩
  intro hunk hhunk
  simp only [List.getLast?_concat, Option.mem_def, Option.some.injEq] at hhunk
  subst hhunk
  exact ⟨chunk, hlast, hlines⟩

/-! ### Hunk headers -/

lemma noSurroundingWhitespace_marker {marker path : Text} (hm : marker.head? = some '*')
    (hne : path ≠ []) (hpath : NoTrailingWhitespace path) :
    NoSurroundingWhitespace (marker ++ path) := by
  refine ⟨?_, noTrailingWhitespace_append hne hpath⟩
  intro c hc
  have hstar : (marker ++ path).head? = some '*' := by simp [hm]
  rw [Option.mem_def, hstar] at hc
  rw [← Option.some.inj hc]
  decide

lemma headerText_eq_self {line : Text} (h : NoSurroundingWhitespace line) :
    p.headerText line = line := by
  unfold headerText
  split
  · exact trimEnd_eq_self h.2
  · exact trim_eq_self h

lemma append_ne_of_not_prefix {m k : Text} (h : ¬ k <+: m) (s : Text) : k ++ s ≠ m := by
  rintro rfl
  exact h (List.prefix_append k s)

variable (p)

lemma header_addFile (path : PathBuf) :
    p.header (addFileMarker ++ path) = some (.hunk (.addFile path []) .addFile) := by
  have henv : stripPrefix environmentIdMarker (addFileMarker ++ path) = none :=
    stripPrefix_of_disjoint (by decide) (by decide) path
  have hend : addFileMarker ++ path ≠ endPatchMarker := append_ne_of_not_prefix (by decide) path
  simp [header, henv, hend]

lemma header_deleteFile (path : PathBuf) :
    p.header (deleteFileMarker ++ path) = some (.hunk (.deleteFile path) .deleteFile) := by
  have henv : stripPrefix environmentIdMarker (deleteFileMarker ++ path) = none :=
    stripPrefix_of_disjoint (by decide) (by decide) path
  have hend : deleteFileMarker ++ path ≠ endPatchMarker := append_ne_of_not_prefix (by decide) path
  have hadd : stripPrefix addFileMarker (deleteFileMarker ++ path) = none :=
    stripPrefix_of_disjoint (by decide) (by decide) path
  simp [header, henv, hend, hadd]

lemma header_updateFile (path : PathBuf) :
    p.header (updateFileMarker ++ path) =
      some (.hunk (.updateFile path none []) (.updateFile p.lineNumber)) := by
  have henv : stripPrefix environmentIdMarker (updateFileMarker ++ path) = none :=
    stripPrefix_of_disjoint (by decide) (by decide) path
  have hend : updateFileMarker ++ path ≠ endPatchMarker := append_ne_of_not_prefix (by decide) path
  have hadd : stripPrefix addFileMarker (updateFileMarker ++ path) = none :=
    stripPrefix_of_disjoint (by decide) (by decide) path
  have hdel : stripPrefix deleteFileMarker (updateFileMarker ++ path) = none :=
    stripPrefix_of_disjoint (by decide) (by decide) path
  simp [header, henv, hend, hadd, hdel]

variable {p}

/-- A hunk header between two hunks opens its hunk. -/
theorem stepLine_header {line : Text} {hunk : Hunk} {mode : Mode} (h : Between hs env p)
    (hline : NoSurroundingWhitespace line)
    (hheader : ({ p with lineNumber := p.lineNumber + 1 } : StreamingPatchParser).header line =
      some (.hunk hunk mode)) :
    p.stepLine line = .ok { p with
      lineNumber := p.lineNumber + 1
      hunks := p.hunks ++ [hunk]
      mode := mode } := by
  have hb : Between hs env { p with lineNumber := p.lineNumber + 1 } :=
    ⟨h.hunks, h.environmentId, h.started, h.notEnded, h.complete⟩
  refine processLine_of_header h.started h.notEnded ?_
  rw [headerText_eq_self hline]
  simp [handleHunkHeadersAndEndPatch, hheader, hb.ensureUpdateHunkIsNotEmpty]

/-! ### Added files -/

/-- A line whose first character is no asterisk is no header, whatever the mode trims. -/
theorem header_eq_none_of_head {c : Char} {s : Text} (hc : '*' ≠ c) :
    p.header (trimEnd (c :: s)) = none := by
  have hstrip : ∀ m : Text, m.head? = some '*' → stripPrefix m (trimEnd (c :: s)) = none := by
    rintro (_ | ⟨d, m⟩) hm
    · cases hm
    · rw [Option.some.inj hm]
      exact stripPrefix_trimEnd_of_head hc
  have hend : trimEnd (c :: s) ≠ endPatchMarker := trimEnd_ne_of_head hc
  unfold header
  rw [hstrip environmentIdMarker (by decide), hstrip addFileMarker (by decide),
    hstrip deleteFileMarker (by decide), hstrip updateFileMarker (by decide)]
  simp [hend]

lemma stepLine_added {contents : Text} (text : Text) (h : InAdd hs env path contents p) :
    ∃ p', p.stepLine ('+' :: text) = .ok p' ∧ InAdd hs env path
      (contents ++ text ++ ['\n']) p' := by
  refine ⟨_, processLine_of_addedLine h.mode ?_
    ⟨text, path, contents, rfl, by simp [h.hunks], rfl⟩, ?_, h.environmentId, h.mode⟩
  · have htrim : trim ('+' :: text) = trimEnd ('+' :: text) := by
      unfold trim
      rw [trimStart_eq_self fun c hc => by rw [← Option.some.inj hc]; decide]
    simp only [headerText, h.mode, htrim]
    exact header_eq_none_of_head (by decide)
  · simp [h.hunks, setLast]

lemma runs_added (path : PathBuf) (added : List Text) :
    Runs stepLine (InAdd hs env path []) (added.map ('+' :: ·))
      (InAdd hs env path (added.flatMap (· ++ ['\n']))) := by
  rw [List.map_eq_flatMap]
  refine Runs.flatMap (fun done => InAdd hs env path (done.flatMap (· ++ ['\n']))) _ added ?_ []
  intro done text _
  refine Runs.single fun p h => ?_
  obtain ⟨p', hstep, hp'⟩ := stepLine_added text h
  refine ⟨p', hstep, ?_⟩
  simpa using hp'

/-! ### Update hunks -/

/-- A line of an update hunk that is no header changes the hunk as it is read. -/
theorem stepLine_update {line : Text} (effect : UpdateLine)
    (h : InUpdate hs env path movePath chunks p)
    (hheader : ∀ q : StreamingPatchParser, q.header (trimEnd line) = none)
    (hread : ∀ n, readUpdateLine n movePath chunks.getLast? line = .ok effect) :
    ∃ p', p.stepLine line = .ok p' ∧
      InUpdate hs env path (effect.movePath movePath) (effect.chunks chunks) p' := by
  obtain ⟨n, hmode⟩ := h.mode
  refine ⟨_, processLine_of_updatedBy hmode ?_
    ⟨path, movePath, chunks, effect, by simp [h.hunks], hread _, rfl⟩, ?_, h.environmentId,
    ⟨n, hmode⟩⟩
  · simp only [headerText, hmode]
    exact hheader _
  · simp [h.hunks, setLast]

lemma stepLine_moveTo {path target : PathBuf} (htarget : PathOk target)
    (h : InUpdate hs env path none [] p) :
    ∃ p', p.stepLine (moveToMarker ++ target) = .ok p' ∧
      InUpdate hs env path (some target) [] p' := by
  have htrim : trimEnd (moveToMarker ++ target) = moveToMarker ++ target :=
    trimEnd_eq_self (noTrailingWhitespace_append htarget.1 htarget.2.2)
  have hstrip : ∀ m : Text, ¬ m <+: moveToMarker → ¬ moveToMarker <+: m →
      stripPrefix m (moveToMarker ++ target) = none :=
    fun m h₁ h₂ => stripPrefix_of_disjoint h₁ h₂ target
  have hend : moveToMarker ++ target ≠ endPatchMarker := append_ne_of_not_prefix (by decide) target
  refine stepLine_update (.moveTo target) h ?_ ?_
  · intro q
    rw [htrim]
    unfold header
    rw [hstrip environmentIdMarker (by decide) (by decide),
      hstrip addFileMarker (by decide) (by decide),
      hstrip deleteFileMarker (by decide) (by decide),
      hstrip updateFileMarker (by decide) (by decide)]
    simp [hend]
  · intro n
    simp [readUpdateLine, htrim]

/-- A context line opens a chunk, unless the chunk before it has no lines yet. -/
theorem stepLine_context {context : Option Text} (hcontext : ∀ text ∈ context, ContextOk text)
    (hlast : ∀ chunk ∈ chunks.getLast?, chunk.hasNoLines = false)
    (h : InUpdate hs env path movePath chunks p) :
    ∃ p', p.stepLine (contextLine context) = .ok p' ∧
      InUpdate hs env path movePath (chunks ++ [.opened context]) p' := by
  have hlines : chunks.getLast?.any (·.hasNoLines) = false := by
    rcases hl : chunks.getLast? with _ | chunk
    · rfl
    · simpa using hlast chunk hl
  have htrim : trimEnd (contextLine context) = contextLine context := by
    rcases context with _ | text
    · decide
    · have hok := hcontext text rfl
      refine trimEnd_eq_self (noTrailingWhitespace_append ?_ hok.2.2)
      rintro rfl
      exact hok.1 rfl
  obtain ⟨s, hat⟩ : ∃ s, contextLine context = '@' :: s := by
    rcases context with _ | text
    · exact ⟨_, rfl⟩
    · exact ⟨_, rfl⟩
  have his : isChangeContext (contextLine context) = true := by
    rcases context with _ | text
    · decide
    · simp [isChangeContext, contextLine, startsWith]
  have hmove : stripPrefix moveToMarker (contextLine context) = none := by
    rw [← htrim, hat]
    exact stripPrefix_trimEnd_of_head (by decide)
  refine stepLine_update (.openChunk context) h ?_ ?_
  · intro q
    rw [hat]
    exact header_eq_none_of_head (by decide)
  · intro n
    have hnonempty : (contextLine context).isEmpty = false := by rw [hat]; rfl
    simp only [readUpdateLine, htrim, his, hlines, hmove, hnonempty, Bool.and_false,
      Bool.not_true, Bool.false_eq_true, if_false, ite_self]
    rcases context with _ | text
    · rfl
    · have hne : contextLine (some text) ≠ emptyChangeContextMarker :=
        append_ne_of_not_prefix (by decide) text
      rw [if_neg hne]
      simp [contextLine]

/-- A change line goes to the open chunk, or opens the first one. -/
theorem stepLine_change (change : ChangeLine)
    (hlast : ∀ chunk ∈ chunks.getLast?, chunk.isEndOfFile = false)
    (h : InUpdate hs env path movePath chunks p) :
    ∃ p', p.stepLine change.line = .ok p' ∧ InUpdate hs env path movePath
        ((UpdateLine.change change.oldLines change.newLines).chunks chunks) p' := by
  have heof : chunks.getLast?.any (·.isEndOfFile) = false := by
    rcases hl : chunks.getLast? with _ | chunk
    · rfl
    · simpa using hlast chunk hl
  obtain ⟨c, s, hline, hstar, hat⟩ : ∃ c s, change.line = c :: s ∧ '*' ≠ c ∧ '@' ≠ c := by
    cases change with
    | context text => exact ⟨' ', text, rfl, by decide, by decide⟩
    | removed text => exact ⟨'-', text, rfl, by decide, by decide⟩
    | added text => exact ⟨'+', text, rfl, by decide, by decide⟩
  refine stepLine_update (.change change.oldLines change.newLines) h ?_ ?_
  · intro q
    rw [hline]
    exact header_eq_none_of_head hstar
  · intro n
    have hmove : stripPrefix moveToMarker (trimEnd change.line) = none := by
      rw [hline]
      exact stripPrefix_trimEnd_of_head hstar
    have hempty : trimEnd change.line ≠ emptyChangeContextMarker := by
      rw [hline]
      exact trimEnd_ne_of_head hat
    have hcontext : stripPrefix changeContextMarker (trimEnd change.line) = none := by
      rw [hline]
      exact stripPrefix_trimEnd_of_head hat
    have hstarts : startsWith (trimEnd change.line) changeContextMarker = false := by
      rw [hline]
      exact startsWith_trimEnd_of_head hat
    have heofMarker : trimEnd change.line ≠ eofMarker := by
      rw [hline]
      exact trimEnd_ne_of_head hstar
    have his : isChangeContext (trimEnd change.line) = false := by
      simp [isChangeContext, hempty, hstarts]
    simp only [readUpdateLine, heof, hmove, his, hempty, hcontext, heofMarker, Bool.false_and,
      Bool.false_eq_true, if_false, ite_self]
    cases change <;> rfl

/-- The end-of-file marker closes a chunk that has lines. -/
theorem stepLine_eof {chunk : UpdateFileChunk} (hlast : chunks.getLast? = some chunk)
    (hlines : chunk.hasNoLines = false) (heof : chunk.isEndOfFile = false)
    (h : InUpdate hs env path movePath chunks p) :
    ∃ p', p.stepLine eofMarker = .ok p' ∧
      InUpdate hs env path movePath (setLast chunks { chunk with isEndOfFile := true }) p' := by
  have hchunks : (UpdateLine.endOfFile).chunks chunks =
      setLast chunks { chunk with isEndOfFile := true } := by
    simp [UpdateLine.chunks, hlast]
  rw [← hchunks]
  refine stepLine_update .endOfFile h ?_ ?_
  · intro q
    have hmarker : trimEnd eofMarker = eofMarker := by decide
    rw [hmarker]
    unfold header
    rw [show stripPrefix environmentIdMarker eofMarker = none by decide,
      show stripPrefix addFileMarker eofMarker = none by decide,
      show stripPrefix deleteFileMarker eofMarker = none by decide,
      show stripPrefix updateFileMarker eofMarker = none by decide]
    simp [show eofMarker ≠ endPatchMarker by decide]
  · intro n
    have hmarker : trimEnd eofMarker = eofMarker := by decide
    simp only [readUpdateLine, hlast, hmarker, Option.any_some, heof, hlines, Option.isNone_some,
      Bool.false_and, Bool.and_false, Bool.false_eq_true, if_false]
    rw [if_neg (by decide), show stripPrefix changeContextMarker eofMarker = none by decide]
    simp

section Chunks

variable {path : PathBuf} {movePath : Option PathBuf} {chunks : List UpdateFileChunk}

lemma runs_changes (changes : List ChangeLine) {chunk : UpdateFileChunk}
    (heof : chunk.isEndOfFile = false) :
    Runs stepLine (InUpdate hs env path movePath (chunks ++ [chunk])) (changes.map (·.line))
      (InUpdate hs env path movePath (chunks ++
        [chunk.push (changes.flatMap (·.oldLines)) (changes.flatMap (·.newLines))])) := by
  rw [List.map_eq_flatMap]
  refine Runs.weaken (Runs.flatMap (fun done : List ChangeLine =>
    InUpdate hs env path movePath (chunks ++
      [chunk.push (done.flatMap (·.oldLines)) (done.flatMap (·.newLines))])) _ changes ?_ [])
    ?_ ?_
  · intro done change _
    refine Runs.single fun p h => ?_
    obtain ⟨p', hstep, hp'⟩ := stepLine_change change (by simp [UpdateFileChunk.push, heof]) h
    refine ⟨p', hstep, ?_⟩
    simpa [UpdateLine.chunks, setLast, UpdateFileChunk.push] using hp'
  · intro p h
    simpa [UpdateFileChunk.push] using h
  · intro p h
    simpa using h

lemma runs_eof (isEndOfFile : Bool) {chunk : UpdateFileChunk} (hlines : chunk.hasNoLines = false)
    (heof : chunk.isEndOfFile = false) :
    Runs stepLine (InUpdate hs env path movePath (chunks ++ [chunk]))
      (if isEndOfFile then [eofMarker] else [])
      (InUpdate hs env path movePath (chunks ++ [{ chunk with isEndOfFile := isEndOfFile }])) := by
  cases isEndOfFile with
  | false =>
    refine Runs.nil fun p h => ?_
    rwa [← heof]
  | true =>
    refine Runs.single fun p h => ?_
    obtain ⟨p', hstep, hp'⟩ := stepLine_eof (by simp) hlines heof h
    refine ⟨p', hstep, ?_⟩
    simpa [setLast] using hp'

variable (c : ChunkText)

lemma chunk_eq : c.chunk = { (UpdateFileChunk.opened c.context).push
    (c.changes.flatMap (·.oldLines)) (c.changes.flatMap (·.newLines)) with
    isEndOfFile := c.isEndOfFile } := by
  simp [ChunkText.chunk, UpdateFileChunk.opened, UpdateFileChunk.push]

/-- A chunk with its context line, after chunks that have lines. -/
theorem runs_chunk (hcontext : ∀ text ∈ c.context, ContextOk text)
    (hlines : c.chunk.hasNoLines = false)
    (hlast : ∀ chunk ∈ chunks.getLast?, chunk.hasNoLines = false) :
    Runs stepLine (InUpdate hs env path movePath chunks) (c.lines false)
      (InUpdate hs env path movePath (chunks ++ [c.chunk])) := by
  rw [chunk_eq]
  unfold ChunkText.lines
  rw [if_neg Bool.false_ne_true]
  have hopen : Runs stepLine (InUpdate hs env path movePath chunks) [contextLine c.context]
      (InUpdate hs env path movePath (chunks ++ [.opened c.context])) :=
    Runs.single fun p h => stepLine_context hcontext hlast h
  exact (hopen.append (runs_changes c.changes rfl)).append (runs_eof c.isEndOfFile hlines rfl)

/-- A first chunk whose context line is left out: its first change line opens it. -/
theorem runs_firstChunk (hcontext : c.context = none) (hlines : c.chunk.hasNoLines = false) :
    Runs stepLine (InUpdate hs env path movePath []) (c.lines true)
      (InUpdate hs env path movePath [c.chunk]) := by
  obtain ⟨context, changes, isEndOfFile⟩ := c
  dsimp only at hcontext
  subst hcontext
  rcases changes with _ | ⟨change, changes⟩
  · simp [ChunkText.chunk, UpdateFileChunk.hasNoLines] at hlines
  have hfirst : Runs stepLine (InUpdate hs env path movePath []) [change.line]
      (InUpdate hs env path movePath
        [(UpdateFileChunk.opened none).push change.oldLines change.newLines]) :=
    Runs.single fun p h => stepLine_change change (by simp) h
  have hrest : Runs stepLine (InUpdate hs env path movePath
      ([] ++ [(UpdateFileChunk.opened none).push change.oldLines change.newLines]))
      (changes.map (·.line)) _ := runs_changes changes rfl
  have hpush : ((UpdateFileChunk.opened none).push change.oldLines change.newLines).push
      (changes.flatMap (·.oldLines)) (changes.flatMap (·.newLines)) =
      (UpdateFileChunk.opened none).push ((change :: changes).flatMap (·.oldLines))
        ((change :: changes).flatMap (·.newLines)) := by
    simp [UpdateFileChunk.push]
  rw [hpush] at hrest
  rw [chunk_eq]
  exact (hfirst.append hrest).append (runs_eof isEndOfFile hlines rfl)

lemma runs_changeLines (omitContext : Bool) (cs : List ChunkText)
    (hcontext : ∀ c ∈ cs, ∀ text ∈ c.context, ContextOk text)
    (hlines : ∀ c ∈ cs, c.chunk.hasNoLines = false) :
    Runs stepLine (InUpdate hs env path movePath []) (changeLines omitContext cs)
      (InUpdate hs env path movePath (cs.map (·.chunk))) := by
  rcases cs with _ | ⟨c, cs⟩
  · exact Runs.nil fun p h => h
  have hfirst : Runs stepLine (InUpdate hs env path movePath [])
      (c.lines (omitContext && c.context.isNone)) (InUpdate hs env path movePath [c.chunk]) := by
    rcases ho : (omitContext && c.context.isNone) with _ | _
    · show Runs stepLine _ _ (InUpdate hs env path movePath ([] ++ [c.chunk]))
      exact runs_chunk c (hcontext c List.mem_cons_self) (hlines c List.mem_cons_self) (by simp)
    · have hnone : c.context = none := by
        rw [Bool.and_eq_true, Option.isNone_iff_eq_none] at ho
        exact ho.2
      exact runs_firstChunk c hnone (hlines c List.mem_cons_self)
  refine hfirst.append (Runs.weaken (Runs.flatMap (fun done p =>
    InUpdate hs env path movePath (c.chunk :: done.map (·.chunk)) p ∧
      ∀ chunk ∈ (c.chunk :: done.map (·.chunk)).getLast?, chunk.hasNoLines = false) _ cs ?_ [])
    ?_ ?_)
  · intro done d hd p h
    obtain ⟨p', hrun, hp'⟩ := runs_chunk d (hcontext d (List.mem_cons_of_mem _ hd))
      (hlines d (List.mem_cons_of_mem _ hd)) h.2 p h.1
    refine ⟨p', hrun, by simpa using hp', ?_⟩
    have hd' := hlines d (List.mem_cons_of_mem _ hd)
    simpa [List.getLast?_cons] using hd'
  · intro p h
    exact ⟨h, by simpa using hlines c List.mem_cons_self⟩
  · intro p h
    simpa using h.1

end Chunks

/-! ### Whole patches -/

lemma runs_hunk (t : HunkText) (hw : t.hunk.Writable) (hl : t.hunk.HasLines) :
    Runs stepLine (Between hs env) t.lines (Between (hs ++ [t.hunk]) env) := by
  cases t with
  | addFile path contents =>
    obtain ⟨hpath, -, hend⟩ : PathOk path ∧ ContentsOk contents := hw
    have hopen : Runs stepLine (Between hs env) [addFileMarker ++ path] (InAdd hs env path []) := by
      refine Runs.single fun p h => ⟨_, stepLine_header h ?_ (header_addFile _ path), ?_⟩
      · exact noSurroundingWhitespace_marker (by decide) hpath.1 hpath.2.2
      · exact ⟨by simp [h.hunks], h.environmentId, rfl⟩
    refine hopen.append ((runs_added path (contentLines contents)).weaken (fun _ h => h) ?_)
    intro p h
    rw [contentLines, flatMap_dropLast_splitOn hend] at h
    exact h.between
  | deleteFile path =>
    have hpath : PathOk path := hw
    refine Runs.single fun p h => ⟨_, stepLine_header h ?_ (header_deleteFile _ path), ?_⟩
    · exact noSurroundingWhitespace_marker (by decide) hpath.1 hpath.2.2
    · exact ⟨by simp [h.hunks, HunkText.hunk], h.environmentId, by simp, by simp,
        by simp [HunkText.hunk, Complete]⟩
  | updateFile path movePath omitContext chunks =>
    obtain ⟨hpath, hmove, hne, hchunks⟩ := hw
    have hopen : Runs stepLine (Between hs env) [updateFileMarker ++ path]
        (InUpdate hs env path none []) := by
      refine Runs.single fun p h => ⟨_, stepLine_header h ?_ (header_updateFile _ path), ?_⟩
      · exact noSurroundingWhitespace_marker (by decide) hpath.1 hpath.2.2
      · exact ⟨by simp [h.hunks], h.environmentId, ⟨_, rfl⟩⟩
    have hto : Runs stepLine (InUpdate hs env path none [])
        (movePath.toList.map (moveToMarker ++ ·)) (InUpdate hs env path movePath []) := by
      rcases movePath with _ | target
      · exact Runs.nil fun _ h => h
      · exact Runs.single fun p h => stepLine_moveTo (hmove target rfl) h
    have hbody : Runs stepLine (InUpdate hs env path movePath [])
        (changeLines omitContext chunks)
        (InUpdate hs env path movePath (chunks.map (·.chunk))) :=
      runs_changeLines omitContext chunks
        (fun c hc => (hchunks c.chunk (List.mem_map_of_mem hc)).1)
        fun c hc => hl c.chunk (List.mem_map_of_mem hc)
    refine hopen.append (hto.append (hbody.weaken (fun _ h => h) fun p h => ?_))
    -- the last chunk has lines, so the hunk may end
    obtain ⟨chunk, hlast⟩ : ∃ chunk, (chunks.map (·.chunk)).getLast? = some chunk :=
      ⟨_, List.getLast?_eq_getLast_of_ne_nil hne⟩
    exact h.between hlast (hl chunk (List.mem_of_getLast? hlast))

/-- The environment id stands directly after the begin marker. -/
theorem runs_environmentId (hid : ∀ id ∈ env, EnvironmentIdOk id) :
    Runs stepLine (fun p => p.mode = .startedPatch ∧ p.hunks = [] ∧ p.environmentId = none)
      (env.toList.map (environmentIdMarker ++ ' ' :: ·)) (Between [] env) := by
  rcases env with _ | id
  · refine Runs.nil fun p h => ?_
    exact ⟨h.2.1, h.2.2, by simp [h.1], by simp [h.1], by simp⟩
  · refine Runs.single fun p h => ?_
    obtain ⟨hne, -, hws⟩ := hid id rfl
    have hline : NoSurroundingWhitespace (environmentIdMarker ++ ' ' :: id) :=
      noSurroundingWhitespace_marker (by decide) (List.cons_ne_nil _ _)
        (noTrailingWhitespace_append (a := [' ']) hne hws.2)
    have htrim : trim (' ' :: id) = id := by
      have hspace : trimStart (' ' :: id) = trimStart id := rfl
      unfold trim
      rw [hspace, trimStart_eq_self hws.1, trimEnd_eq_self hws.2]
    refine ⟨{ p with lineNumber := p.lineNumber + 1, environmentId := some id },
      processLine_of_header (by simp [h.1]) (by simp [h.1]) ?_,
      ⟨h.2.1, rfl, by simp [h.1], by simp [h.1], by simp⟩⟩
    rw [headerText_eq_self hline]
    simp [handleHunkHeadersAndEndPatch, header, h.1, h.2.2, htrim, hne]

/-- A run over the lines of a whole patch, from the initial state to the last hunk. -/
theorem runs_patchLines {trees : List HunkText} (hid : ∀ id ∈ env, EnvironmentIdOk id)
    (hw : ∀ t ∈ trees, t.hunk.Writable) (hl : ∀ t ∈ trees, t.hunk.HasLines) :
    Runs stepLine (· = {}) (patchLines env trees) (Between (trees.map (·.hunk)) env) := by
  refine Runs.cons (Q := fun p => p.mode = .startedPatch ∧ p.hunks = [] ∧ p.environmentId = none)
    ?_ ((runs_environmentId hid).append ?_)
  · rintro p rfl
    exact ⟨_, rfl, rfl, rfl, rfl⟩
  · refine Runs.flatMap (fun done => Between (done.map (·.hunk)) env) _ trees ?_ []
    intro done t ht
    have h : Runs stepLine (Between (done.map (·.hunk)) env) t.lines
        (Between (done.map (·.hunk) ++ [t.hunk]) env) := runs_hunk t (hw t ht) (hl t ht)
    simpa using h

lemma finish_of_between (h : Between hs env p) :
    ∃ p', ({ p with lineBuffer := endPatchMarker } : StreamingPatchParser).finish =
      .ok (hs, p') ∧ p'.environmentId = env := by
  have hb : Between hs env { p with lineBuffer := [], lineNumber := p.lineNumber + 1 } :=
    ⟨h.hunks, h.environmentId, h.started, h.notEnded, h.complete⟩
  have hend : trim endPatchMarker = endPatchMarker := by decide
  refine ⟨{ p with lineBuffer := [], lineNumber := p.lineNumber + 1, mode := .endedPatch }, ?_,
    h.environmentId⟩
  rw [← h.hunks]
  exact finish_of_end (p := { p with lineBuffer := endPatchMarker }) hend
    (hb.ensureUpdateHunkIsNotEmpty endPatchMarker)

end StreamingPatchParser

/-! ### The lines of a text -/

/-- A line that `lines` and `joinLines` keep: no line feed, no carriage return at its end. -/
def CleanLine (line : Text) : Prop := '\n' ∉ line ∧ line.getLast? ≠ some '\r'

lemma cleanLine_marker {marker text : Text} (hmarker : '\n' ∉ marker) (hne : text ≠ [])
    (hlf : '\n' ∉ text) (hws : NoTrailingWhitespace text) : CleanLine (marker ++ text) := by
  refine ⟨by simp [hmarker, hlf], fun hcr => ?_⟩
  rw [List.getLast?_append_of_ne_nil _ hne] at hcr
  cases hws '\r' hcr

lemma cleanLine_change {c : ChunkText} {change : ChangeLine}
    (hok : ∀ line ∈ c.chunk.oldLines ++ c.chunk.newLines, LineOk line)
    (hmem : change ∈ c.changes) : CleanLine change.line := by
  have hkey : ∀ (d : Char) (text : Text), d ≠ '\n' → d ≠ '\r' →
      text ∈ c.chunk.oldLines ++ c.chunk.newLines →
      CleanLine (d :: text) := by
    intro d text hlf hcr htext
    obtain ⟨hno, hnl⟩ := hok text htext
    refine ⟨by simp [hnl, hlf.symm], fun hlast => ?_⟩
    rcases List.mem_cons.mp (List.mem_of_getLast? hlast) with h | h
    · exact hcr h.symm
    · exact hno h
  have hin : ∀ text, text ∈ change.oldLines ∨ text ∈ change.newLines →
      text ∈ c.chunk.oldLines ++ c.chunk.newLines := by
    intro text htext
    rw [List.mem_append]
    rcases htext with h | h
    · exact .inl (List.mem_flatMap.mpr ⟨change, hmem, h⟩)
    · exact .inr (List.mem_flatMap.mpr ⟨change, hmem, h⟩)
  cases change with
  | context text => exact hkey ' ' text (by decide) (by decide) (hin text (.inl (by
      simp [ChangeLine.oldLines])))
  | removed text => exact hkey '-' text (by decide) (by decide) (hin text (.inl (by
      simp [ChangeLine.oldLines])))
  | added text => exact hkey '+' text (by decide) (by decide) (hin text (.inr (by
      simp [ChangeLine.newLines])))

lemma cleanLine_chunk {c : ChunkText} (hw : c.chunk.Writable) (omitContext : Bool) :
    ∀ line ∈ c.lines omitContext, CleanLine line := by
  intro line hline
  simp only [ChunkText.lines, List.mem_append, List.mem_map] at hline
  rcases hline with (hline | ⟨change, hchange, rfl⟩) | hline
  · split_ifs at hline
    · cases hline
    · rw [List.mem_singleton.mp hline]
      rcases hc : c.context with _ | text
      · exact ⟨by decide, by decide⟩
      · have hok : ContextOk text := hw.1 text hc
        refine cleanLine_marker (by decide) ?_ hok.2.1 hok.2.2
        rintro rfl
        exact hok.1 rfl
  · exact cleanLine_change hw.2 hchange
  · split_ifs at hline
    · rw [List.mem_singleton.mp hline]
      exact ⟨by decide, by decide⟩
    · cases hline

lemma cleanLine_hunk {t : HunkText} (hw : t.hunk.Writable) : ∀ line ∈ t.lines, CleanLine line := by
  have hpathLine : ∀ {marker path : Text}, '\n' ∉ marker → PathOk path →
      CleanLine (marker ++ path) :=
    fun hm hpath => cleanLine_marker hm hpath.1 hpath.2.1 hpath.2.2
  intro line hline
  cases t with
  | addFile path contents =>
    obtain ⟨hpath, hcr, -⟩ : PathOk path ∧ ContentsOk contents := hw
    rcases List.mem_cons.mp hline with rfl | hline
    · exact hpathLine (by decide) hpath
    · obtain ⟨text, htext, rfl⟩ := List.mem_map.mp hline
      have hpart : text ∈ contents.splitOn '\n' := (List.dropLast_sublist _).subset htext
      refine ⟨by simp [not_mem_of_mem_splitOn hpart], fun hlast => ?_⟩
      rcases List.mem_cons.mp (List.mem_of_getLast? hlast) with h | h
      · cases h
      · refine hcr ?_
        rw [← joinLines_splitOn contents]
        exact mem_joinLines hpart h
  | deleteFile path =>
    rw [List.mem_singleton.mp hline]
    exact hpathLine (by decide) hw
  | updateFile path movePath omitContext chunks =>
    obtain ⟨hpath, hmove, -, hchunks⟩ := hw
    rcases List.mem_cons.mp hline with rfl | hline
    · exact hpathLine (by decide) hpath
    rcases List.mem_append.mp hline with hline | hline
    · obtain ⟨target, htarget, rfl⟩ := List.mem_map.mp hline
      exact hpathLine (by decide) (hmove target (by simpa using htarget))
    · obtain ⟨c, hc, o, hline⟩ : ∃ c ∈ chunks, ∃ o, line ∈ c.lines o := by
        rcases chunks with _ | ⟨c, cs⟩
        · cases hline
        rcases List.mem_append.mp hline with hline | hline
        · exact ⟨c, List.mem_cons_self, _, hline⟩
        · obtain ⟨d, hd, hline⟩ := List.mem_flatMap.mp hline
          exact ⟨d, List.mem_cons_of_mem _ hd, _, hline⟩
      exact cleanLine_chunk (hchunks c.chunk (List.mem_map_of_mem hc)) o line hline

lemma cleanLine_patchLines {env : Option Text} {trees : List HunkText}
    (hid : ∀ id ∈ env, EnvironmentIdOk id) (hw : ∀ t ∈ trees, t.hunk.Writable) :
    ∀ line ∈ patchLines env trees, CleanLine line := by
  intro line hline
  rcases List.mem_cons.mp hline with rfl | hline
  · exact ⟨by decide, by decide⟩
  rcases List.mem_append.mp hline with hline | hline
  · obtain ⟨id, hmem, rfl⟩ := List.mem_map.mp hline
    obtain ⟨hne, hlf, hws⟩ := hid id (by simpa using hmem)
    exact cleanLine_marker (by decide) (List.cons_ne_nil _ _) (by simp [hlf])
      (noTrailingWhitespace_append (a := [' ']) hne hws.2)
  · obtain ⟨t, ht, hline⟩ := List.mem_flatMap.mp hline
    exact cleanLine_hunk (hw t ht) line hline

/-! ### Every writing is read back -/

/-- A tree for a hunk: context lines always written, removed lines before added ones. -/
def Hunk.tree : Hunk → HunkText
  | .addFile path contents => .addFile path contents
  | .deleteFile path => .deleteFile path
  | .updateFile path movePath chunks => .updateFile path movePath false (chunks.map fun c =>
    { context := c.changeContext
      changes := c.oldLines.map .removed ++ c.newLines.map .added
      isEndOfFile := c.isEndOfFile })

lemma hunk_tree (hunk : Hunk) : hunk.tree.hunk = hunk := by
  cases hunk with
  | addFile path contents => rfl
  | deleteFile path => rfl
  | updateFile path movePath chunks =>
    have hchunk : ∀ c : UpdateFileChunk, (ChunkText.chunk
        { context := c.changeContext
          changes := c.oldLines.map .removed ++ c.newLines.map .added
          isEndOfFile := c.isEndOfFile }) = c := by
      intro c
      have hnil : ∀ ls : List Text, ls.flatMap (fun _ => ([] : List Text)) = [] := by simp
      simp only [ChunkText.chunk, List.flatMap_append, List.flatMap_map, ChangeLine.oldLines,
        ChangeLine.newLines, List.flatMap_singleton', hnil, List.append_nil, List.nil_append]
    simp [Hunk.tree, HunkText.hunk, hchunk, Function.comp_def]

/-- **Every writing of a patch by the grammar is read back.** A list of writable hunks whose chunks
all have lines has a writing, and the parser takes every writing of it, with or without a final
line feed, to exactly these hunks and the environment id. -/
theorem parsePatch_patchText (hunks : List Hunk) (hw : ∀ hunk ∈ hunks, hunk.Writable)
    (hl : ∀ hunk ∈ hunks, hunk.HasLines) :
    (∃ trees : List HunkText, trees.map (·.hunk) = hunks) ∧
    ∀ (trees : List HunkText) (env : Option Text) (tail : Text),
      trees.map (·.hunk) = hunks → (∀ id ∈ env, EnvironmentIdOk id) →
      (tail = [] ∨ tail = ['\n']) →
      parsePatch (patchText env trees ++ tail) = .ok {
        patch := patchText env trees
        hunks := hunks
        workdir := none
        environmentId := env } := by
  refine ⟨⟨hunks.map Hunk.tree, by simp [Function.comp_def, hunk_tree]⟩, ?_⟩
  rintro trees env tail rfl hid htail
  have hw' : ∀ t ∈ trees, t.hunk.Writable := fun t ht => hw _ (List.mem_map_of_mem ht)
  have hl' : ∀ t ∈ trees, t.hunk.HasLines := fun t ht => hl _ (List.mem_map_of_mem ht)
  have hclean := cleanLine_patchLines hid hw'
  have hlines : lines (patchText env trees) = patchLines env trees ++ [endPatchMarker] :=
    lines_joinLines hclean (by decide) (by decide)
  have hws : NoSurroundingWhitespace (patchText env trees) := by
    constructor
    · intro c hc
      have hhead : (patchText env trees).head? = some '*' := by
        unfold patchText patchLines
        rw [List.cons_append, joinLines_cons _ (by simp)]
        rfl
      rw [Option.mem_def, hhead] at hc
      rw [← Option.some.inj hc]
      decide
    · unfold patchText
      rw [joinLines_concat _ _ (by simp [patchLines])]
      exact noTrailingWhitespace_append (b := '\n' :: endPatchMarker) (by decide +kernel)
        (by decide +kernel)
  have htrim : lines (trim (patchText env trees ++ tail)) =
      patchLines env trees ++ [endPatchMarker] := by
    rcases htail with rfl | rfl
    · rw [List.append_nil, trim_eq_self hws, hlines]
    · rw [trim_concat (by decide), trim_eq_self hws, hlines]
  have hbounds : BoundariesOk (patchLines env trees ++ [endPatchMarker]) := by
    constructor
    · show some (trim beginPatchMarker) = some beginPatchMarker
      decide
    · rw [List.getLast?_concat]
      decide
  have hstrip : (patchLines env trees).map stripCr = patchLines env trees := by
    conv_rhs => rw [← List.map_id (patchLines env trees)]
    exact List.map_congr_left fun l hl => stripCr_eq_self (hclean l hl).2
  obtain ⟨p, hrun, hp⟩ := StreamingPatchParser.runs_patchLines hid hw' hl' {} rfl
  obtain ⟨p', hfinish, henv⟩ := StreamingPatchParser.finish_of_between hp
  rw [StreamingPatchParser.parsePatch_of_boundariesOk htrim hbounds (fun l hl => (hclean l hl).1)
    (by decide), hstrip, StreamingPatchParser.runLines_eq_foldlM, hrun]
  simp [hfinish, henv, patchText]

/-- One hunk of each kind: an added file, a deleted one, and a renamed one with two chunks, the
first without its context line and the second at the end of the file. -/
def sampleTrees : List HunkText :=
  [.addFile "a".toList "x\n".toList, .deleteFile "b".toList,
    .updateFile "c".toList (some "d".toList) true
      [{ context := none, isEndOfFile := false
         changes := [.context "y".toList, .removed "z".toList] },
       { context := some "fn".toList, changes := [.added []], isEndOfFile := true }]]

/-- The sample is read back. -/
theorem parsePatch_sample :
    (parsePatch (patchText none sampleTrees)).toOption.map (·.hunks) =
      some (sampleTrees.map (·.hunk)) := by
  have hw : ∀ hunk ∈ sampleTrees.map (·.hunk), hunk.Writable := by decide +kernel
  have hl : ∀ hunk ∈ sampleTrees.map (·.hunk), hunk.HasLines := by decide
  have h := (parsePatch_patchText (sampleTrees.map (·.hunk)) hw hl).2 sampleTrees none [] rfl
    (by simp) (.inl rfl)
  rw [List.append_nil] at h
  rw [h]
  rfl

/-- An update hunk whose only chunk is a context line. -/
def contextOnlyTree : HunkText :=
  .updateFile "a".toList none false [{ context := none, changes := [], isEndOfFile := false }]

/-- A chunk of a context alone is in the grammar, and the parser refuses it. -/
theorem parsePatch_contextOnly :
    contextOnlyTree.hunk.Writable ∧
    patchText none [contextOnlyTree] =
      "*** Begin Patch\n*** Update File: a\n@@\n*** End Patch".toList ∧
    parsePatch (patchText none [contextOnlyTree]) =
      .error (.invalidHunkError noLinesMessage 4) := by
  exact ⟨by decide +kernel, by decide +kernel, by decide +kernel⟩

end Codex.ApplyPatch
