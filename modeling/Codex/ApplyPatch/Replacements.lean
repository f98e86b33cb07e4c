import Codex.ApplyPatch.StreamingParser
import Mathlib.Data.List.Sort

/-!
# New file contents from chunks

The text part of an update: `seek_sequence` finds the lines of a chunk in the file,
`compute_replacements` turns the chunks into replacements, `apply_replacements` applies them from
the last to the first, and `derive_new_contents_from_chunks` puts the file together again. All of it
is a function of the text of the file, the chunks and the path text of the error messages.

Source: `apply-patch/src/seek_sequence.rs`, `apply-patch/src/lib.rs`
-/

namespace Codex.ApplyPatch

open Codex.Lib

/-! ### Finding lines -/

/-- Typographic dashes, quotes and spaces to their ASCII forms.
Source: `normalise`, the character map -/
def normaliseChar (c : Char) : Char :=
  let n := c.toNat
  if (0x2010 ≤ n ∧ n ≤ 0x2015) ∨ n = 0x2212 then '-'
  else if 0x2018 ≤ n ∧ n ≤ 0x201B then '\x27'
  else if 0x201C ≤ n ∧ n ≤ 0x201F then '"'
  else if n = 0x00A0 ∨ (0x2002 ≤ n ∧ n ≤ 0x200A) ∨ n = 0x202F ∨ n = 0x205F ∨ n = 0x3000 then ' '
  else c

def normalise (s : Text) : Text := (trim s).map normaliseChar

/-- One pass of the search: the first index from `searchStart` on where the pattern matches, both
sides seen through `view`. -/
def seekPass (view : Text → Text) (ls pattern : List Text) (searchStart : ℕ) : Option ℕ :=
  (List.range' searchStart (ls.length - pattern.length + 1 - searchStart)).find? fun i =>
    ((ls.drop i).take pattern.length).map view == pattern.map view

/-- Four passes of decreasing strictness: exact, up to trailing whitespace, up to surrounding
whitespace, up to typography.
Source: `seek_sequence` -/
def seekSequence (ls pattern : List Text) (start : ℕ) (eof : Bool) : Option ℕ :=
  if pattern.isEmpty then some start
  else if ls.length < pattern.length then none
  else
    let searchStart := if eof && pattern.length ≤ ls.length then ls.length - pattern.length
      else start
    (seekPass id ls pattern searchStart).or <|
    (seekPass trimEnd ls pattern searchStart).or <|
    (seekPass trim ls pattern searchStart).or <|
    seekPass normalise ls pattern searchStart

/-! ### Replacements -/

/-- `(start_index, old_len, new_lines)` -/
structure Replacement where
  startIndex : ℕ
  oldLen : ℕ
  newLines : List Text
  deriving DecidableEq

/-- `list.last().is_some_and(String::is_empty)` -/
def endsWithEmptyLine (ls : List Text) : Bool := ls.getLast?.any (·.isEmpty)

def contextNotFoundMessage (context path : Text) : Text :=
  "Failed to find context '".toList ++ context ++ "' in ".toList ++ path

def linesNotFoundMessage (path : Text) (oldLines : List Text) : Text :=
  "Failed to find expected lines in ".toList ++ path ++ ":\n".toList ++ joinLines oldLines

variable (originalLines : List Text) (path : Text) (chunk : UpdateFileChunk)

/-- The position after the context line of a chunk, or the message when it is not found. -/
def seekContext (lineIndex : ℕ) : Except Text ℕ :=
  match chunk.changeContext with
  | none => .ok lineIndex
  | some context =>
    match seekSequence originalLines [context] lineIndex false with
    | some idx => .ok (idx + 1)
    | none => .error (contextNotFoundMessage context path)

/-- The replacement for one chunk and the line index after it. A chunk without old lines adds at
the end of the file; a pattern that ends with an empty line is tried again without it.
Source: the loop body of `compute_replacements` -/
def chunkReplacement (lineIndex : ℕ) : Except Text (Replacement × ℕ) := do
  let lineIndex ← seekContext originalLines path chunk lineIndex
  if chunk.oldLines.isEmpty then
    let insertionIdx := if endsWithEmptyLine originalLines then originalLines.length - 1
      else originalLines.length
    return (⟨insertionIdx, 0, chunk.newLines⟩, lineIndex)
  else
    match seekSequence originalLines chunk.oldLines lineIndex chunk.isEndOfFile with
    | some startIdx =>
      return (⟨startIdx, chunk.oldLines.length, chunk.newLines⟩, startIdx + chunk.oldLines.length)
    | none =>
      if endsWithEmptyLine chunk.oldLines then
        let pattern := chunk.oldLines.dropLast
        let newSlice := if endsWithEmptyLine chunk.newLines then chunk.newLines.dropLast
          else chunk.newLines
        match seekSequence originalLines pattern lineIndex chunk.isEndOfFile with
        | some startIdx =>
          return (⟨startIdx, pattern.length, newSlice⟩, startIdx + pattern.length)
        | none => .error (linesNotFoundMessage path chunk.oldLines)
      else .error (linesNotFoundMessage path chunk.oldLines)

/-- The loop of `compute_replacements` -/
def chunkReplacements (originalLines : List Text) (path : Text) :
    List UpdateFileChunk → ℕ → Except Text (List Replacement)
  | [], _ => .ok []
  | chunk :: chunks, lineIndex => do
      let (replacement, lineIndex) ← chunkReplacement originalLines path chunk lineIndex
      let rest ← chunkReplacements originalLines path chunks lineIndex
      return replacement :: rest

variable (chunks : List UpdateFileChunk)

/-- `compute_replacements`; `sort_by_key` is stable, as insertion sort is -/
def computeReplacements : Except Text (List Replacement) := do
  let replacements ← chunkReplacements originalLines path chunks 0
  return replacements.insertionSort (·.startIndex ≤ ·.startIndex)

/-- `for _ in 0..old_len { if start_idx < lines.len() { lines.remove(start_idx); } }` -/
def removeLines (startIdx : ℕ) : ℕ → List Text → List Text
  | 0, ls => ls
  | n + 1, ls => removeLines startIdx n (if startIdx < ls.length then ls.eraseIdx startIdx else ls)

/-- `for (offset, new_line) in new_segment.iter().enumerate() { lines.insert(start_idx + offset, ..)
}`; the index never passes the end of the lines, since the replacements come in descending order -/
def insertLines : ℕ → List Text → List Text → List Text
  | _, [], ls => ls
  | idx, newLine :: rest, ls => insertLines (idx + 1) rest (ls.insertIdx idx newLine)

def applyReplacements (ls : List Text) (replacements : List Replacement) : List Text :=
  replacements.reverse.foldl
    (fun ls r => insertLines r.startIndex r.newLines (removeLines r.startIndex r.oldLen ls)) ls

/-- The new text of a file.
Source: `derive_new_contents_from_chunks`, after the read -/
def newContents (originalContents : Text) : Except Text Text := do
  let split := originalContents.splitOn '\n'
  let originalLines := if endsWithEmptyLine split then split.dropLast else split
  let replacements ← computeReplacements originalLines path chunks
  let newLines := applyReplacements originalLines replacements
  let newLines := if endsWithEmptyLine newLines then newLines else newLines ++ [[]]
  return joinLines newLines

example : newContents [] [⟨none, ["b".toList], ["c".toList], false⟩] "a\nb\n".toList =
    .ok "a\nc\n".toList := by decide

end Codex.ApplyPatch
