import Codex.ApplyPatch.StreamingParser

/-!
# The one-shot patch parser

`parse_patch` of `apply-patch/src/parser.rs`: trim, split into lines, check the first and the last
line (unwrapping a heredoc in lenient mode), join the lines again and drive the streaming parser
over the result.

Below the definitions, `feed` is read line by line: feeding a text is running `stepLine` over its
terminated lines and buffering the last one (`feed_eq_runLines`), so a text in any number of deltas
is one run (`pushDeltas_eq_feed`).
-/

namespace Codex.ApplyPatch

open Codex.Lib

/-- `lib.rs`, `ApplyPatchArgs` -/
structure ApplyPatchArgs where
  patch : Text
  hunks : List Hunk
  workdir : Option Text
  environmentId : Option Text
  deriving DecidableEq

inductive ParseMode where
  | strict
  | lenient

def checkStartAndEndLinesStrict (firstLine lastLine : Option Text) : Except ParseError Unit :=
  match firstLine.map trim, lastLine.map trim with
  | some first, some last =>
    if first = beginPatchMarker ∧ last = endPatchMarker then .ok ()
    else if first ≠ beginPatchMarker then .error (.invalidPatchError firstLineMessage)
    else .error (.invalidPatchError lastLineMessage)
  | some first, none =>
    if first ≠ beginPatchMarker then .error (.invalidPatchError firstLineMessage)
    else .error (.invalidPatchError lastLineMessage)
  | none, _ => .error (.invalidPatchError lastLineMessage)

def checkPatchBoundariesStrict (ls : List Text) : Except ParseError (List Text) := do
  checkStartAndEndLinesStrict ls.head? ls.getLast?
  return ls

/-- The heredoc test of lenient mode: `<<EOF` (possibly quoted) on the first line, a last line
that ends with `EOF`, at least four lines.
Source: `check_patch_boundaries_lenient` -/
def isHeredocWrapped (ls : List Text) : Bool :=
  match ls.head?, ls.getLast? with
  | some first, some last =>
    (first == "<<EOF".toList || first == "<<'EOF'".toList || first == "<<\"EOF\"".toList) &&
      "EOF".toList.isSuffixOf last && 4 ≤ ls.length
  | _, _ => false

def checkPatchBoundariesLenient (originalLines : List Text) : Except ParseError (List Text) :=
  match checkPatchBoundariesStrict originalLines with
  | .ok ls => .ok ls
  | .error originalParseError =>
    if isHeredocWrapped originalLines then
      checkPatchBoundariesStrict (originalLines.drop 1).dropLast
    else .error originalParseError

def parsePatchText (patch : Text) (mode : ParseMode) : Except ParseError ApplyPatchArgs := do
  let ls := lines (trim patch)
  let patchLines ← match mode with
    | .strict => checkPatchBoundariesStrict ls
    | .lenient => checkPatchBoundariesLenient ls
  let patch := joinLines patchLines
  let (_, parser) ← ({} : StreamingPatchParser).pushDelta patch
  let (hunks, parser) ← parser.finish
  return { hunks := hunks, patch := patch, workdir := none, environmentId := parser.environmentId }

/-- `parse_patch`, with `PARSE_IN_STRICT_MODE = false` -/
def parsePatch (patch : Text) : Except ParseError ApplyPatchArgs := parsePatchText patch .lenient

namespace StreamingPatchParser

/-- Feed a list of deltas one after the other. -/
def pushDeltas (p : StreamingPatchParser) : List Text → Except ParseError StreamingPatchParser
  | [] => .ok p
  | delta :: deltas => do
      let (_, p') ← p.pushDelta delta
      pushDeltas p' deltas

/-- What a streaming client ends up with: the hunks and the environment id after `finish`. -/
def streamParse (deltas : List Text) : Except ParseError (List Hunk × Option Text) := do
  let p ← ({} : StreamingPatchParser).pushDeltas deltas
  let (hunks, p) ← p.finish
  return (hunks, p.environmentId)

/-- Run the machine over terminated lines. -/
def runLines (p : StreamingPatchParser) : List Text → Except ParseError StreamingPatchParser
  | [] => .ok p
  | line :: ls => do
      let p' ← p.stepLine line
      runLines p' ls

/-! ### Reading `feed` line by line -/

variable (p : StreamingPatchParser)

lemma runLines_cons (line : Text) (ls : List Text) :
    p.runLines (line :: ls) = (p.stepLine line).bind fun p' => p'.runLines ls := rfl

lemma runLines_eq_foldlM (ls : List Text) : p.runLines ls = ls.foldlM stepLine p := by
  induction ls generalizing p with
  | nil => rfl
  | cons line ls ih =>
    rw [runLines_cons, List.foldlM_cons]
    cases p.stepLine line with
    | error e => rfl
    | ok p' => exact ih p'

lemma feed_append (s t : Text) : p.feed (s ++ t) = (p.feed s).bind fun p' => p'.feed t := by
  fun_induction feed p s with
  | case1 p => rfl
  | case2 p rest ih =>
    rw [List.cons_append, feed]
    cases hstep : stepLine { p with lineBuffer := [] } (stripCr p.lineBuffer) with
    | error e => rfl
    | ok p' => exact ih p'
  | case3 p ch rest hch ih =>
    rw [List.cons_append, feed]
    · exact ih
    · exact hch

/-- Deltas compose: pushing them one by one is pushing their concatenation. -/
theorem pushDeltas_eq_feed (deltas : List Text) : p.pushDeltas deltas = p.feed deltas.flatten := by
  induction deltas generalizing p with
  | nil => rfl
  | cons delta deltas ih =>
    rw [List.flatten_cons, feed_append]
    simp only [pushDeltas, pushDelta]
    cases p.feed delta with
    | error e => rfl
    | ok p' => exact ih p'

lemma feed_of_no_lf {s : Text} (h : '\n' ∉ s) :
    p.feed s = .ok { p with lineBuffer := p.lineBuffer ++ s } := by
  induction s generalizing p with
  | nil => simp [feed]
  | cons c s ih =>
    rw [List.mem_cons, not_or] at h
    rw [feed, ih _ h.2]
    · simp
    · exact fun hc => h.1 hc.symm

/-- A terminated line is stripped of one carriage return and processed. -/
theorem feed_line {s : Text} (h : '\n' ∉ s) (rest : Text) :
    p.feed (s ++ '\n' :: rest) =
      (stepLine { p with lineBuffer := [] } (stripCr (p.lineBuffer ++ s))).bind
        fun p' => p'.feed rest := by
  rw [feed_append, feed_of_no_lf p h]
  rfl

lemma stepLine_lineBuffer {p p' : StreamingPatchParser} {line : Text}
    (h : p.stepLine line = .ok p') : p'.lineBuffer = p.lineBuffer := by
  unfold stepLine at h
  simpa using processLine_lineBuffer h

/-- **Feeding a text is running the machine over its terminated lines**, with the last line left
in the buffer. -/
theorem feed_eq_runLines (hp : p.lineBuffer = []) (ls : List Text) (last : Text)
    (hls : ∀ l ∈ ls, '\n' ∉ l) (hlast : '\n' ∉ last) :
    p.feed (joinLines (ls ++ [last])) =
      (p.runLines (ls.map stripCr)).bind fun p' => .ok { p' with lineBuffer := last } := by
  induction ls generalizing p with
  | nil =>
    rw [List.nil_append, joinLines_singleton, feed_of_no_lf p hlast, hp]
    rfl
  | cons l ls ih =>
    have hjoin : joinLines (l :: ls ++ [last]) = l ++ '\n' :: joinLines (ls ++ [last]) :=
      joinLines_cons l (by simp)
    have hl : '\n' ∉ l := hls l List.mem_cons_self
    have hrest : ∀ m ∈ ls, '\n' ∉ m := fun m hm => hls m (List.mem_cons_of_mem _ hm)
    rw [hjoin, feed_line p hl, hp, List.nil_append, List.map_cons, runLines_cons]
    have hreset : { p with lineBuffer := [] } = p := by rw [← hp]
    rw [hreset]
    cases hstep : p.stepLine (stripCr l) with
    | error e => rfl
    | ok p' => exact ih p' (by rw [stepLine_lineBuffer hstep, hp]) hrest

/-- The end marker as the last line ends the patch, once the last hunk passes its check. -/
theorem finish_of_end {p : StreamingPatchParser} (hend : trim p.lineBuffer = endPatchMarker)
    (he : ({ p with lineBuffer := [], lineNumber := p.lineNumber + 1 } :
      StreamingPatchParser).ensureUpdateHunkIsNotEmpty endPatchMarker = .ok ()) :
    p.finish = .ok (p.hunks,
      { p with lineBuffer := [], lineNumber := p.lineNumber + 1, mode := .endedPatch }) := by
  have hne : p.lineBuffer.isEmpty = false := by
    rw [List.isEmpty_eq_false_iff]
    intro hnil
    rw [hnil] at hend
    cases hend
  simp [finish, finishLine, hne, hend, he]

/-! ### The boundary check -/

/-- The check of the first and the last line, as a condition. -/
def BoundariesOk (ls : List Text) : Prop :=
  ls.head?.map trim = some beginPatchMarker ∧ ls.getLast?.map trim = some endPatchMarker

lemma checkPatchBoundariesStrict_of_ok {ls : List Text} (h : BoundariesOk ls) :
    checkPatchBoundariesStrict ls = .ok ls := by
  simp [checkPatchBoundariesStrict, checkStartAndEndLinesStrict, h.1, h.2]

lemma checkPatchBoundariesStrict_of_not_ok {ls : List Text} (h : ¬ BoundariesOk ls) :
    ∃ e, checkPatchBoundariesStrict ls = .error e := by
  unfold checkPatchBoundariesStrict checkStartAndEndLinesStrict
  unfold BoundariesOk at h
  rcases hf : ls.head?.map trim with _ | first
  · exact ⟨_, rfl⟩
  rcases hl : ls.getLast?.map trim with _ | lastLine
  · by_cases hfirst : first ≠ beginPatchMarker
    · exact ⟨_, by simp only [if_pos hfirst, error_bind]; rfl⟩
    · exact ⟨_, by simp only [if_neg hfirst, error_bind]; rfl⟩
  · rw [hf, hl, Option.some.injEq, Option.some.injEq] at h
    by_cases hfirst : first ≠ beginPatchMarker
    · exact ⟨_, by simp only [if_neg h, if_pos hfirst, error_bind]; rfl⟩
    · exact ⟨_, by simp only [if_neg h, if_neg hfirst, error_bind]; rfl⟩

/-- The one-shot parser, once the first and the last line are in order: the machine runs over the
terminated lines and finishes with the last one. -/
theorem parsePatch_of_boundariesOk {t last : Text} {init : List Text}
    (hlines : lines (trim t) = init ++ [last]) (hok : BoundariesOk (init ++ [last]))
    (hinit : ∀ l ∈ init, '\n' ∉ l) (hlast : '\n' ∉ last) :
    parsePatch t = (do
      let p ← ({} : StreamingPatchParser).runLines (init.map stripCr)
      let (hunks, p) ← ({ p with lineBuffer := last } : StreamingPatchParser).finish
      return {
        hunks := hunks
        patch := joinLines (init ++ [last])
        workdir := none
        environmentId := p.environmentId }) := by
  unfold parsePatch parsePatchText checkPatchBoundariesLenient
  simp only [hlines]
  rw [checkPatchBoundariesStrict_of_ok hok]
  simp only [ok_bind, pushDelta, feed_eq_runLines {} rfl init last hinit hlast]
  rcases runLines {} (init.map stripCr) with e | p <;> rfl

end StreamingPatchParser

end Codex.ApplyPatch
