import Codex.Streaming.TableHoldback

/-!
# The two-region stream

`tui/src/streaming/controller.rs` (`StreamCore`), with the queue of `tui/src/streaming/mod.rs` and
the collector of `tui/src/markdown_stream.rs`. Source is committed line by line and rendered as a
whole; the rendered lines before the holdback are queued for the transcript, the others are a tail
that may still change.

The renderer of markdown is a parameter, for a fixed working directory; the collector's width, which
only tests read, and the times of the queued lines are left out. A slice that is out of range is
`none`: the code panics there.
-/

namespace Codex.Streaming

open Codex.Lib

inductive HistoryRenderMode where
  | rich
  | raw
  deriving DecidableEq

/-- What the stream calls: `render_markdown_agent_with_links_and_cwd`, and `HyperlinkLine::new` of
an unstyled line. -/
structure StreamEnv (Line : Type) where
  renderMarkdown : Text → Option ℕ → List Line
  plainLine : Text → Line

/-- `&l[start..stop]`. -/
def slice {α : Type} (l : List α) (start stop : ℕ) : Option (List α) :=
  if start ≤ stop ∧ stop ≤ l.length then some ((l.take stop).drop start) else none

/-! ### The collector -/

structure MarkdownStreamCollector where
  buffer : Text := []
  committedSourceLen : ℕ := 0

namespace MarkdownStreamCollector

variable (collector : MarkdownStreamCollector)

def pushDelta (delta : Text) : MarkdownStreamCollector :=
  { collector with buffer := collector.buffer ++ delta }

/-- `buffer.rfind('\n').map(|idx| idx + 1)`. -/
def commitEnd (buffer : Text) : Option ℕ :=
  if '\n' ∈ buffer then some (buffer.rdropWhile (· != '\n')).length else none

def commitCompleteSource : Option (Option Text × MarkdownStreamCollector) :=
  match commitEnd collector.buffer with
  | none => some (none, collector)
  | some commitEnd =>
    if commitEnd ≤ collector.committedSourceLen then some (none, collector)
    else
      (slice collector.buffer collector.committedSourceLen commitEnd).map fun out =>
        (some out, { collector with committedSourceLen := commitEnd })

def finalizeAndDrainSource : Option (Text × MarkdownStreamCollector) :=
  if collector.buffer.length ≤ collector.committedSourceLen then some ([], {})
  else
    (slice collector.buffer collector.committedSourceLen collector.buffer.length).map fun out =>
      (if endsWith out ['\n'] then out else out ++ ['\n'], {})

end MarkdownStreamCollector

/-! ### The queue -/

structure StreamState (Line : Type) where
  collector : MarkdownStreamCollector := {}
  queuedLines : List Line := []
  hasSeenDelta : Bool := false

namespace StreamState

variable {Line : Type} (state : StreamState Line)

def step : List Line × StreamState Line :=
  (state.queuedLines.head?.toList, { state with queuedLines := state.queuedLines.tail })

def drainN (maxLines : ℕ) : List Line × StreamState Line :=
  let drained := min maxLines state.queuedLines.length
  (state.queuedLines.take drained, { state with queuedLines := state.queuedLines.drop drained })

def clearQueue : StreamState Line := { state with queuedLines := [] }

def enqueue (lines : List Line) : StreamState Line :=
  { state with queuedLines := state.queuedLines ++ lines }

end StreamState

/-! ### The stream -/

structure StablePrefixLenCache where
  sourceStart : ℕ
  width : Option ℕ
  stablePrefixLen : ℕ

structure StreamCore (Line : Type) where
  state : StreamState Line := {}
  width : Option ℕ
  rawSource : Text := []
  renderedLines : List Line := []
  enqueuedStableLen : ℕ := 0
  emittedStableLen : ℕ := 0
  renderMode : HistoryRenderMode
  stablePrefixLenCache : Option StablePrefixLenCache := none
  holdbackScanner : TableHoldbackScanner := {}

section Operations

variable {Line : Type} (env : StreamEnv Line)

def rawLinesFromSource (source : Text) : List Text :=
  if source = [] then []
  else
    let parts := source.splitOn '\n'
    if endsWith source ['\n'] then parts.dropLast else parts

def renderSource (renderMode : HistoryRenderMode) (width : Option ℕ) (source : Text) : List Line :=
  match renderMode with
  | .rich => env.renderMarkdown source width
  | .raw => (rawLinesFromSource source).map env.plainLine

namespace StreamCore

def new (width : Option ℕ) (renderMode : HistoryRenderMode) : StreamCore Line :=
  { width, renderMode }

variable (core : StreamCore Line)

def hasTail : Bool :=
  decide (core.enqueuedStableLen < core.renderedLines.length)

def recomputeStreamingRender (core : StreamCore Line) : StreamCore Line :=
  { core with renderedLines := renderSource env core.renderMode core.width core.rawSource }

def stablePrefixLenForSourceStart (core : StreamCore Line) (sourceStart : ℕ) :
    ℕ × StreamCore Line :=
  let rendered := fun _ : Unit =>
    let stablePrefixLen := (env.renderMarkdown
      (core.rawSource.take (min sourceStart core.rawSource.length)) core.width).length
    (stablePrefixLen,
      { core with stablePrefixLenCache := some ⟨sourceStart, core.width, stablePrefixLen⟩ })
  match core.stablePrefixLenCache with
  | some cache =>
    if cache.sourceStart = sourceStart ∧ cache.width = core.width then
      (cache.stablePrefixLen, core)
    else rendered ()
  | none => rendered ()

def tailBudgetFromSourceStart (core : StreamCore Line) (sourceStart : ℕ) : ℕ × StreamCore Line :=
  if sourceStart = 0 then (core.renderedLines.length, core)
  else
    let sourceStart := min sourceStart core.rawSource.length
    let (stablePrefixLen, core) := core.stablePrefixLenForSourceStart env sourceStart
    (core.renderedLines.length - stablePrefixLen, core)

def activeTailBudgetLines (core : StreamCore Line) : ℕ × StreamCore Line :=
  match core.renderMode with
  | .raw => (0, core)
  | .rich =>
    match core.holdbackScanner.state with
    | .confirmed start | .pendingHeader start => core.tailBudgetFromSourceStart env start
    | .none => (0, core)

def computeTargetStableLen (core : StreamCore Line) : ℕ × StreamCore Line :=
  let (tailBudget, core) := core.activeTailBudgetLines env
  (max (core.renderedLines.length - tailBudget) core.emittedStableLen, core)

/-- The `enqueue` of `rendered_lines[start..target_stable_len]`, with the new count -/
def enqueueRendered (start targetStableLen : ℕ) : Option (StreamCore Line) :=
  (slice core.renderedLines start targetStableLen).map fun lines =>
    { core with
      state := core.state.enqueue lines
      enqueuedStableLen := targetStableLen }

/-- The queue of `rendered_lines[emitted_stable_len..target_stable_len]` where both
`sync_stable_queue` and `rebuild_stable_queue_from_render` clear it first -/
def requeue (targetStableLen : ℕ) : Option (StreamCore Line) :=
  let core := { core with state := core.state.clearQueue }
  if core.emittedStableLen < targetStableLen then
    core.enqueueRendered core.emittedStableLen targetStableLen
  else some { core with enqueuedStableLen := targetStableLen }

def syncStableQueue (core : StreamCore Line) : Option (Bool × StreamCore Line) :=
  let (targetStableLen, core) := core.computeTargetStableLen env
  if targetStableLen < core.enqueuedStableLen then
    (core.requeue targetStableLen).map fun core => (!core.state.queuedLines.isEmpty, core)
  else if targetStableLen = core.enqueuedStableLen then some (false, core)
  else (core.enqueueRendered core.enqueuedStableLen targetStableLen).map fun core => (true, core)

def rebuildStableQueueFromRender (core : StreamCore Line) : Option (StreamCore Line) :=
  let (targetStableLen, core) := core.computeTargetStableLen env
  core.requeue targetStableLen

/-- The commit of `push_delta` -/
def commitSource (core : StreamCore Line) (committedSource : Text) :
    Option (Bool × StreamCore Line) :=
  syncStableQueue env <| recomputeStreamingRender env
    { core with
      rawSource := core.rawSource ++ committedSource
      holdbackScanner := core.holdbackScanner.pushSourceChunk committedSource }

def pushDelta (core : StreamCore Line) (delta : Text) : Option (Bool × StreamCore Line) :=
  let core :=
    { core with
      state :=
        { core.state with
          hasSeenDelta := core.state.hasSeenDelta || !delta.isEmpty
          collector := core.state.collector.pushDelta delta } }
  if '\n' ∈ delta then
    match core.state.collector.commitCompleteSource with
    | none => none
    | some (none, collector) => some (false, { core with state := { core.state with collector } })
    | some (some committedSource, collector) =>
      commitSource env { core with state := { core.state with collector } } committedSource
  else some (false, core)

def finalizeRemaining (core : StreamCore Line) : Option (List Line × StreamCore Line) :=
  match core.state.collector.finalizeAndDrainSource with
  | none => none
  | some (remainderSource, collector) =>
    let core :=
      { core with
        state := { core.state with collector }
        rawSource := core.rawSource ++ remainderSource
        holdbackScanner := core.holdbackScanner.pushSourceChunk remainderSource }
    let rendered := renderSource env core.renderMode core.width core.rawSource
    if rendered.length ≤ core.emittedStableLen then some ([], core)
    else (slice rendered core.emittedStableLen rendered.length).map fun lines => (lines, core)

def tick : List Line × StreamCore Line :=
  let (step, state) := core.state.step
  (step, { core with state, emittedStableLen := core.emittedStableLen + step.length })

def tickBatch (maxLines : ℕ) : List Line × StreamCore Line :=
  if maxLines = 0 then ([], core)
  else
    let (step, state) := core.state.drainN maxLines
    if step = [] then (step, { core with state })
    else (step, { core with state, emittedStableLen := core.emittedStableLen + step.length })

/-- The emitted count of a new layout, where a queued line must not be counted as emitted. -/
def clampEmitted (emittedStableLen renderedLen : ℕ) (hadPendingQueue : Bool) : ℕ :=
  let emitted := min emittedStableLen renderedLen
  if hadPendingQueue ∧ emitted = renderedLen ∧ 0 < emitted then emitted - 1 else emitted

/-- What `set_width` and `set_render_mode` do after the change -/
def relayout (core : StreamCore Line) (hadPendingQueue hadLiveTail : Bool) :
    Option (StreamCore Line) :=
  if core.rawSource = [] then some core
  else
    let core := core.recomputeStreamingRender env
    let core :=
      { core with
        emittedStableLen :=
          clampEmitted core.emittedStableLen core.renderedLines.length hadPendingQueue
        state := core.state.clearQueue }
    if 0 < core.emittedStableLen ∧ !hadPendingQueue ∧ !hadLiveTail then
      some { core with enqueuedStableLen := core.renderedLines.length }
    else core.rebuildStableQueueFromRender env

def setWidth (core : StreamCore Line) (width : Option ℕ) : Option (StreamCore Line) :=
  if core.width = width then some core
  else
    relayout env { core with width } (!core.state.queuedLines.isEmpty) core.hasTail

def setRenderMode (core : StreamCore Line) (renderMode : HistoryRenderMode) :
    Option (StreamCore Line) :=
  if core.renderMode = renderMode then some core
  else
    relayout env { core with renderMode } (!core.state.queuedLines.isEmpty) core.hasTail

end StreamCore

end Operations

end Codex.Streaming
