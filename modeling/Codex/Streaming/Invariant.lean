import Codex.Streaming.Boundary

/-!
# What the stream keeps

The counters are in order, and the queue holds the rendered lines between them. The boundary of the
holdback carries it: what is queued stands before the boundary, which appended source neither
changes nor moves back. Two steps need a condition: a commit must not render fewer lines than were
emitted, and a new layout must not render more lines after everything was emitted.

* `pushDelta_streamed`, `Emits.streamed`, `relayout_streamed`: the three kinds of step;
* `Shown.extends`, `Shown.emits`, `finalizeRemaining_shown`: what was emitted since a layout.
-/

namespace Codex.Streaming

open Codex.Lib StreamCore

section Invariant

variable {Line : Type}

/-! ### The invariant -/

/-- The scanner, the cache and the render belong to the committed source. -/
structure Coherent (env : StreamEnv Line) (core : StreamCore Line) : Prop where
  source : Terminated '\n' core.rawSource
  scanner : core.holdbackScanner = scanSource core.rawSource
  cache : ∀ cache, core.stablePrefixLenCache = some cache →
    cache.sourceStart ≤ core.rawSource.length ∧ cache.stablePrefixLen =
      (env.renderMarkdown (core.rawSource.take cache.sourceStart) cache.width).length
  rendered : core.renderedLines = renderedSource env core.renderMode core.width core.rawSource

/-- The boundary of the committed source in the current layout. -/
def boundary (env : StreamEnv Line) (core : StreamCore Line) : ℕ :=
  stableBoundary env core.renderMode core.width core.rawSource

/-- What the stream keeps: everything before the boundary is queued, and nothing after it. -/
structure Streamed (env : StreamEnv Line) (core : StreamCore Line) : Prop
    extends Coherent env core where
  enqueued : core.enqueuedStableLen = max (boundary env core) core.emittedStableLen
  inRange : core.enqueuedStableLen ≤ core.renderedLines.length
  queue : core.state.queuedLines =
    (core.renderedLines.take core.enqueuedStableLen).drop core.emittedStableLen

variable {env : StreamEnv Line} {core : StreamCore Line}

lemma boundary_le (h : Coherent env core) : boundary env core ≤ core.renderedLines.length := by
  rw [h.rendered]
  exact stableBoundary_le env _ _ _

lemma Streamed.emitted_le (h : Streamed env core) :
    core.emittedStableLen ≤ core.enqueuedStableLen := by
  rw [h.enqueued]
  exact le_max_right _ _

/-! ### The target of the queue -/

/-- A measurement of the render gives a count and changes the cache only. -/
def Measures (env : StreamEnv Line) (core : StreamCore Line)
    (measured : ℕ × StreamCore Line) (count : ℕ) : Prop :=
  ∃ cache, measured = (count, { core with stablePrefixLenCache := cache }) ∧
    Coherent env { core with stablePrefixLenCache := cache }

variable (h : Coherent env core)
include h

lemma Measures.same (count : ℕ) : Measures env core (count, core) count :=
  ⟨core.stablePrefixLenCache, rfl, h⟩

lemma stablePrefixLenForSourceStart_measures {start : ℕ} (hstart : start ≤ core.rawSource.length) :
    Measures env core (core.stablePrefixLenForSourceStart env start)
      (env.renderMarkdown (core.rawSource.take start) core.width).length := by
  have hmiss : Measures env core
      ((env.renderMarkdown (core.rawSource.take start) core.width).length,
        { core with
          stablePrefixLenCache := some ⟨start, core.width,
            (env.renderMarkdown (core.rawSource.take start) core.width).length⟩ })
      (env.renderMarkdown (core.rawSource.take start) core.width).length := by
    refine ⟨_, rfl, h.source, h.scanner, fun entry hentry => ?_, h.rendered⟩
    cases hentry
    exact ⟨hstart, rfl⟩
  rw [stablePrefixLenForSourceStart]
  dsimp only
  rw [Nat.min_eq_left hstart]
  split
  next cache hcache =>
    split_ifs with hhit
    · obtain ⟨rfl, hwidth⟩ := hhit
      rw [(h.cache cache hcache).2, hwidth]
      exact Measures.same h _
    · exact hmiss
  next => exact hmiss

lemma tailBudgetFromSourceStart_measures {start : ℕ} (hrich : core.renderMode = .rich)
    (hstart : (scanSource core.rawSource).holdbackStart = some start) :
    Measures env core (core.tailBudgetFromSourceStart env start)
      (core.renderedLines.length - boundary env core) := by
  have hboundary : boundary env core = if start = 0 then 0
      else min core.renderedLines.length
        (env.renderMarkdown (core.rawSource.take start) core.width).length := by
    rw [boundary, hrich, stableBoundary_of_some env hstart, h.rendered, hrich]
  rw [tailBudgetFromSourceStart, hboundary]
  by_cases hzero : start = 0
  · rw [if_pos hzero, if_pos hzero]
    exact Measures.same h _
  · obtain ⟨before, after, hbefore, -, hlength⟩ := exists_of_holdbackStart h.source hstart
    have hle : start ≤ core.rawSource.length := by
      rw [hlength, hbefore, List.length_append]
      exact Nat.le_add_right _ _
    obtain ⟨cache, hmeasured, hcoherent⟩ := stablePrefixLenForSourceStart_measures h hle
    rw [if_neg hzero, if_neg hzero]
    dsimp only
    rw [Nat.min_eq_left hle, hmeasured]
    have hmin : ∀ lines stable : ℕ, lines - min lines stable = lines - stable := by omega
    rw [hmin]
    exact ⟨cache, rfl, hcoherent⟩

lemma activeTailBudgetLines_measures :
    Measures env core (core.activeTailBudgetLines env)
      (core.renderedLines.length - boundary env core) := by
  have hwhole : boundary env core = core.renderedLines.length →
      Measures env core (0, core) (core.renderedLines.length - boundary env core) := by
    intro hsame
    rw [hsame, Nat.sub_self]
    exact Measures.same h 0
  rw [activeTailBudgetLines]
  cases hmode : core.renderMode with
  | raw =>
    apply hwhole
    rw [boundary, h.rendered, hmode]
    rfl
  | rich =>
    have hstate : core.holdbackScanner.holdbackStart =
        (scanSource core.rawSource).holdbackStart := by rw [h.scanner]
    rw [TableHoldbackScanner.holdbackStart] at hstate
    dsimp only
    rw [TableHoldbackScanner.state]
    cases hconfirmed : core.holdbackScanner.confirmedTableStart with
    | some start =>
      rw [hconfirmed] at hstate
      exact tailBudgetFromSourceStart_measures h hmode hstate.symm
    | none =>
      cases hpending : core.holdbackScanner.pendingHeaderStart with
      | some start =>
        rw [hconfirmed, hpending] at hstate
        exact tailBudgetFromSourceStart_measures h hmode hstate.symm
      | none =>
        rw [hconfirmed, hpending] at hstate
        apply hwhole
        rw [boundary, h.rendered, hmode, stableBoundary_of_none env hstate.symm]

/-- The target of the queue is the boundary, or what was emitted beyond it. -/
theorem computeTargetStableLen_measures :
    Measures env core (core.computeTargetStableLen env)
      (max (boundary env core) core.emittedStableLen) := by
  obtain ⟨cache, hmeasured, hcoherent⟩ := activeTailBudgetLines_measures h
  rw [computeTargetStableLen, hmeasured]
  refine ⟨cache, ?_, hcoherent⟩
  dsimp only
  rw [Nat.sub_sub_self (boundary_le h)]

omit h

/-! ### Queueing -/

lemma slice_eq {α : Type} {l : List α} {start stop : ℕ} (h : start ≤ stop)
    (h' : stop ≤ l.length) : slice l start stop = some ((l.take stop).drop start) :=
  if_pos ⟨h, h'⟩

lemma drop_take_append_drop_take {α : Type} (l : List α) {start middle stop : ℕ}
    (h : start ≤ middle) (h' : middle ≤ stop) :
    (l.take middle).drop start ++ (l.take stop).drop middle = (l.take stop).drop start := by
  rw [List.drop_take, List.drop_take, List.drop_take]
  have hmiddle : l.drop middle = (l.drop start).drop (middle - start) := by
    rw [List.drop_drop, Nat.add_sub_cancel' h]
  have hstop : stop - start = (middle - start) + (stop - middle) := by omega
  rw [hmiddle, hstop, List.take_add]

lemma requeue_eq {target : ℕ} (h : core.emittedStableLen ≤ target)
    (h' : target ≤ core.renderedLines.length) :
    core.requeue target =
      some { core with
        state := { core.state with
          queuedLines := (core.renderedLines.take target).drop core.emittedStableLen }
        enqueuedStableLen := target } := by
  rw [requeue]
  dsimp only
  by_cases hlt : core.emittedStableLen < target
  · rw [if_pos hlt, enqueueRendered, slice_eq h h']
    rfl
  · have hempty : (core.renderedLines.take target).drop core.emittedStableLen = [] :=
      List.drop_eq_nil_of_le ((List.length_take_le _ _).trans (Nat.not_lt.mp hlt))
    rw [if_neg hlt, hempty]
    rfl

/-- The render, and how much of it is emitted and stable, are the same. -/
structure SameRender (env : StreamEnv Line) (core core' : StreamCore Line) : Prop where
  rendered : core'.renderedLines = core.renderedLines
  emitted : core'.emittedStableLen = core.emittedStableLen
  boundary : boundary env core' = boundary env core

/-- A rebuilt queue holds what is not emitted yet before the boundary. -/
theorem rebuildStableQueueFromRender_streamed (h : Coherent env core)
    (hemitted : core.emittedStableLen ≤ core.renderedLines.length) :
    ∃ core', core.rebuildStableQueueFromRender env = some core' ∧ Streamed env core' ∧
      SameRender env core core' := by
  obtain ⟨cache, htarget, hcoherent⟩ := computeTargetStableLen_measures h
  have hle : max (boundary env core) core.emittedStableLen ≤ core.renderedLines.length :=
    max_le (boundary_le h) hemitted
  have hrequeue : ({ core with stablePrefixLenCache := cache } : StreamCore Line).requeue
      (max (boundary env core) core.emittedStableLen) = some _ :=
    requeue_eq (le_max_right _ _) hle
  rw [rebuildStableQueueFromRender, htarget]
  exact ⟨_, hrequeue, ⟨⟨h.source, h.scanner, hcoherent.cache, h.rendered⟩, rfl, hle, rfl⟩,
    rfl, rfl, rfl⟩

/-- A queue that holds the start of the stable lines is filled up to the boundary. -/
theorem syncStableQueue_streamed (h : Coherent env core)
    (hemitted : core.emittedStableLen ≤ core.enqueuedStableLen)
    (henqueued : core.enqueuedStableLen ≤ max (boundary env core) core.emittedStableLen)
    (hrange : core.emittedStableLen ≤ core.renderedLines.length)
    (hqueue : core.state.queuedLines =
      (core.renderedLines.take core.enqueuedStableLen).drop core.emittedStableLen) :
    ∃ enqueued core', core.syncStableQueue env = some (enqueued, core') ∧ Streamed env core' ∧
      SameRender env core core' := by
  obtain ⟨cache, htarget, hcoherent⟩ := computeTargetStableLen_measures h
  have hle : max (boundary env core) core.emittedStableLen ≤ core.renderedLines.length :=
    max_le (boundary_le h) hrange
  rw [syncStableQueue, htarget]
  dsimp only
  rw [if_neg (Nat.not_lt.mpr henqueued)]
  by_cases hsame : max (boundary env core) core.emittedStableLen = core.enqueuedStableLen
  · rw [if_pos hsame]
    exact ⟨_, _, rfl, ⟨hcoherent, hsame.symm, hsame ▸ hle, hqueue⟩, rfl, rfl, rfl⟩
  · rw [if_neg hsame, enqueueRendered, slice_eq henqueued hle]
    refine ⟨_, _, rfl, ⟨⟨h.source, h.scanner, hcoherent.cache, h.rendered⟩, rfl, hle, ?_⟩,
      rfl, rfl, rfl⟩
    dsimp only [StreamState.enqueue]
    rw [hqueue, drop_take_append_drop_take _ hemitted henqueued]

/-! ### The steps -/

/-- The rendered lines before the boundary survive a commit, and the boundary does not move back. -/
structure Extends (env : StreamEnv Line) (core core' : StreamCore Line) : Prop where
  emitted : core'.emittedStableLen = core.emittedStableLen
  advances : boundary env core ≤ boundary env core'
  kept : core'.renderedLines.take (boundary env core) = core.renderedLines.take (boundary env core)

lemma Extends.trans_same {core₁ core₂ : StreamCore Line} (h : Extends env core core₁)
    (h' : SameRender env core₁ core₂) : Extends env core core₂ :=
  ⟨h'.emitted.trans h.emitted, h'.boundary ▸ h.advances, h'.rendered ▸ h.kept⟩

variable {core' : StreamCore Line} {lines : List Line}

/-- What is queued or emitted before the boundary is still what the render says. -/
theorem Extends.slice_kept (h : Extends env core core') {start stop : ℕ}
    (hstop : stop ≤ start ∨ stop ≤ boundary env core) :
    (core'.renderedLines.take stop).drop start = (core.renderedLines.take stop).drop start := by
  rcases hstop with hempty | hstable
  · rw [List.drop_eq_nil_of_le ((List.length_take_le _ _).trans hempty),
      List.drop_eq_nil_of_le ((List.length_take_le _ _).trans hempty)]
  · have htake := congrArg (List.take stop) h.kept
    rw [List.take_take, List.take_take, Nat.min_eq_left hstable] at htake
    rw [htake]

/-- The committed source and its render, before the queue is filled up. -/
def appendSource (env : StreamEnv Line) (core : StreamCore Line) (committed : Text) :
    StreamCore Line :=
  recomputeStreamingRender env
    { core with
      rawSource := core.rawSource ++ committed
      holdbackScanner := core.holdbackScanner.pushSourceChunk committed }

variable {committed : Text}

lemma appendSource_coherent (h : Coherent env core)
    (hcommitted : Terminated '\n' committed) (hne : committed ≠ []) :
    Coherent env (appendSource env core committed) := by
  refine ⟨h.source.append hcommitted, ?_, fun cache hcache => ?_, ?_⟩
  · change core.holdbackScanner.pushSourceChunk committed = _
    rw [h.scanner]
    exact (scanSource_append h.source committed).symm
  · obtain ⟨hle, hlength⟩ := h.cache cache hcache
    refine ⟨hle.trans (List.length_append ▸ Nat.le_add_right _ _), ?_⟩
    rw [hlength]
    dsimp only [appendSource, recomputeStreamingRender]
    rw [List.take_append_of_le_length hle]
  · exact (if_neg (List.append_ne_nil_of_right_ne_nil _ hne)).symm

lemma appendSource_extends (hkeeps : KeepsStableLines env) (h : Coherent env core)
    (hcommitted : Terminated '\n' committed) (hne : committed ≠ []) :
    Extends env core (appendSource env core committed) := by
  refine ⟨rfl, stableBoundary_mono hkeeps _ _ h.source hcommitted, ?_⟩
  rw [(appendSource_coherent h hcommitted hne).rendered, h.rendered]
  exact renderedSource_kept hkeeps _ _ h.source hcommitted

/-- A commit keeps the invariant, unless the new render is shorter than what was emitted. -/
theorem commitSource_streamed (hkeeps : KeepsStableLines env) (h : Streamed env core)
    (hcommitted : Terminated '\n' committed) (hne : committed ≠ [])
    (hrange : core.emittedStableLen ≤ (renderSource env core.renderMode core.width
      (core.rawSource ++ committed)).length) :
    ∃ enqueued core', core.commitSource env committed = some (enqueued, core') ∧
      Streamed env core' ∧ Extends env core core' := by
  have hextends := appendSource_extends hkeeps h.toCoherent hcommitted hne
  have henqueued : core.enqueuedStableLen ≤
      max (boundary env (appendSource env core committed)) core.emittedStableLen := by
    have hadvances := hextends.advances
    rw [h.enqueued]
    omega
  have hqueue : core.state.queuedLines =
      ((appendSource env core committed).renderedLines.take core.enqueuedStableLen).drop
        core.emittedStableLen := by
    rw [h.queue, hextends.slice_kept]
    have := h.enqueued
    omega
  obtain ⟨enqueued, core', hsync, hstreamed, hsame⟩ := syncStableQueue_streamed
    (appendSource_coherent h.toCoherent hcommitted hne) h.emitted_le henqueued hrange hqueue
  exact ⟨enqueued, core', hsync, hstreamed, hextends.trans_same hsame⟩

variable (core)

/-- The first queued lines are emitted. -/
def Emits (lines : List Line) (core' : StreamCore Line) : Prop :=
  ∃ n ≤ core.state.queuedLines.length, lines = core.state.queuedLines.take n ∧
    core' = { core with
      state := { core.state with queuedLines := core.state.queuedLines.drop n }
      emittedStableLen := core.emittedStableLen + n }

lemma tick_emits : Emits core core.tick.1 core.tick.2 := by
  rw [tick, StreamState.step]
  cases hqueue : core.state.queuedLines with
  | nil =>
    refine ⟨0, Nat.zero_le _, ?_, ?_⟩
    · rw [hqueue]
      rfl
    · rw [hqueue]
      rfl
  | cons line rest =>
    refine ⟨1, ?_, ?_, ?_⟩
    · rw [hqueue]
      exact Nat.le_add_left _ _
    · rw [hqueue]
      rfl
    · rw [hqueue]
      rfl

lemma tickBatch_emits (maxLines : ℕ) :
    Emits core (core.tickBatch maxLines).1 (core.tickBatch maxLines).2 := by
  have hnone : Emits core [] core := ⟨0, Nat.zero_le _, rfl, rfl⟩
  rw [tickBatch]
  split_ifs
  · exact hnone
  · dsimp only [StreamState.drainN]
    have hle : min maxLines core.state.queuedLines.length ≤ core.state.queuedLines.length :=
      Nat.min_le_right _ _
    split_ifs with hempty
    · have hzero : min maxLines core.state.queuedLines.length = 0 := by
        have hlength := congrArg List.length hempty
        rwa [List.length_take_of_le hle] at hlength
      refine ⟨0, Nat.zero_le _, hempty, ?_⟩
      rw [hzero]
      rfl
    · exact ⟨_, hle, rfl, by rw [List.length_take_of_le hle]⟩

variable {core}

/-- Whatever is still queued stands before the boundary. -/
theorem Streamed.enqueued_le_boundary (h : Streamed env core) {n : ℕ}
    (hn : n ≤ core.state.queuedLines.length) :
    core.emittedStableLen + n ≤ core.enqueuedStableLen ∧
      (n = 0 ∨ core.emittedStableLen + n ≤ boundary env core) := by
  have hlength : core.state.queuedLines.length =
      core.enqueuedStableLen - core.emittedStableLen := by
    rw [h.queue, List.length_drop, List.length_take_of_le h.inRange]
  have hemitted := h.emitted_le
  have henqueued := h.enqueued
  omega

lemma Emits.streamed (h : Streamed env core) (hemits : Emits core lines core') :
    Streamed env core' := by
  obtain ⟨n, hn, -, rfl⟩ := hemits
  obtain ⟨hle, hstable⟩ := h.enqueued_le_boundary hn
  refine ⟨⟨h.source, h.scanner, h.cache, h.rendered⟩, ?_, h.inRange, ?_⟩
  · have henqueued := h.enqueued
    change core.enqueuedStableLen = max (boundary env core) (core.emittedStableLen + n)
    omega
  · change core.state.queuedLines.drop n =
      (core.renderedLines.take core.enqueuedStableLen).drop (core.emittedStableLen + n)
    rw [h.queue, List.drop_drop]

/-- A new layout without queued or tail lines is in order where nothing more than what was emitted
is rendered. -/
def KeepsDrained (env : StreamEnv Line) (core : StreamCore Line) (renderMode : HistoryRenderMode)
    (width : Option ℕ) : Prop :=
  core.rawSource ≠ [] → core.state.queuedLines = [] → core.hasTail = false →
    0 < core.emittedStableLen →
      (renderSource env renderMode width core.rawSource).length ≤ core.emittedStableLen

lemma clampEmitted_le (emitted rendered : ℕ) (hadPendingQueue : Bool) :
    clampEmitted emitted rendered hadPendingQueue ≤ rendered := by
  rw [clampEmitted]
  split_ifs
  · exact (Nat.sub_le _ _).trans (Nat.min_le_right _ _)
  · exact Nat.min_le_right _ _

/-- A new layout keeps the invariant, unless it has more lines after everything was emitted. -/
theorem relayout_streamed (h : Streamed env core) {renderMode : HistoryRenderMode}
    {width : Option ℕ} (hdrained : KeepsDrained env core renderMode width) :
    ∃ core', relayout env { core with renderMode, width } (!core.state.queuedLines.isEmpty)
        core.hasTail = some core' ∧ Streamed env core' := by
  rw [relayout]
  by_cases hnil : core.rawSource = []
  · have hempty : core.renderedLines = [] := by
      rw [h.rendered, hnil]
      rfl
    have hzero : core.enqueuedStableLen = 0 := by
      have hrange := h.inRange
      rw [hempty] at hrange
      exact Nat.le_zero.mp hrange
    rw [if_pos hnil]
    refine ⟨_, rfl, ⟨h.source, h.scanner, h.cache, ?_⟩, ?_, h.inRange, h.queue⟩
    · rw [hempty, hnil]
      rfl
    · have hemitted := h.emitted_le
      change core.enqueuedStableLen =
        max (stableBoundary env renderMode width core.rawSource) core.emittedStableLen
      rw [hnil, stableBoundary_nil]
      omega
  · rw [if_neg hnil]
    have hcoherent : ∀ (state : StreamState Line) (emitted enqueued : ℕ),
        Coherent env { core with
          renderMode, width, state
          renderedLines := renderSource env renderMode width core.rawSource
          emittedStableLen := emitted
          enqueuedStableLen := enqueued } :=
      fun _ _ _ => ⟨h.source, h.scanner, h.cache, (if_neg hnil).symm⟩
    have hle := clampEmitted_le core.emittedStableLen
      (renderSource env renderMode width core.rawSource).length (!core.state.queuedLines.isEmpty)
    dsimp only
    split
    next hlate =>
      obtain ⟨hpos, hqueue, htail⟩ := hlate
      rw [Bool.not_not, List.isEmpty_iff] at hqueue
      rw [Bool.not_eq_true'] at htail
      have hclamp : clampEmitted core.emittedStableLen
          (renderSource env renderMode width core.rawSource).length
          (!core.state.queuedLines.isEmpty) =
          (renderSource env renderMode width core.rawSource).length := by
        have hfirst : ∀ emitted rendered, clampEmitted emitted rendered
            (!core.state.queuedLines.isEmpty) = min emitted rendered := by
          intro emitted rendered
          rw [hqueue]
          rfl
        have hemitted : 0 < core.emittedStableLen := by
          change 0 < clampEmitted core.emittedStableLen _ _ at hpos
          rw [hfirst] at hpos
          omega
        rw [hfirst]
        exact Nat.min_eq_right (hdrained hnil hqueue htail hemitted)
      have hboundary : stableBoundary env renderMode width core.rawSource ≤
          (renderSource env renderMode width core.rawSource).length :=
        boundary_le (hcoherent core.state 0 0)
      have hcount : (renderSource env renderMode width core.rawSource).length =
          max (stableBoundary env renderMode width core.rawSource)
            (clampEmitted core.emittedStableLen
              (renderSource env renderMode width core.rawSource).length
              (!core.state.queuedLines.isEmpty)) := by
        rw [hclamp]
        omega
      have hqueued : [] = ((renderSource env renderMode width core.rawSource).take
          (renderSource env renderMode width core.rawSource).length).drop
            (clampEmitted core.emittedStableLen
              (renderSource env renderMode width core.rawSource).length
              (!core.state.queuedLines.isEmpty)) := by
        rw [hclamp, List.drop_eq_nil_of_le (List.length_take_le _ _)]
      exact ⟨_, rfl, ⟨hcoherent _ _ _, hcount, le_refl _, hqueued⟩⟩
    next =>
      obtain ⟨core', hrebuild, hstreamed, -⟩ := rebuildStableQueueFromRender_streamed
        (hcoherent core.state.clearQueue _ core.enqueuedStableLen) hle
      exact ⟨core', hrebuild, hstreamed⟩

/-! ### The collector -/

variable (collector : MarkdownStreamCollector)

lemma commitCompleteSource_spec :
    ∃ out collector', collector.commitCompleteSource = some (out, collector') ∧
      ∀ committed, out = some committed → committed ≠ [] ∧ Terminated '\n' committed := by
  have hnone : ∀ committed : Text, none = some committed →
      committed ≠ [] ∧ Terminated '\n' committed := fun _ h => absurd h nofun
  rw [MarkdownStreamCollector.commitCompleteSource, MarkdownStreamCollector.commitEnd]
  by_cases hnewline : '\n' ∈ collector.buffer
  · rw [if_pos hnewline]
    obtain ⟨rest, hrest⟩ := List.rdropWhile_prefix (· != '\n') collector.buffer
    generalize hcomplete : collector.buffer.rdropWhile (· != '\n') = complete at hrest
    have hterminated : Terminated '\n' complete := by
      intro x hx
      have hne : complete ≠ [] := by
        rintro rfl
        cases hx
      have hlast := List.rdropWhile_last_not (· != '\n') collector.buffer (hcomplete ▸ hne)
      simp only [hcomplete] at hlast
      rw [List.getLast?_eq_some_getLast hne] at hx
      rw [← Option.some.inj hx]
      simpa using hlast
    have hle : complete.length ≤ collector.buffer.length := by
      rw [← hrest, List.length_append]
      exact Nat.le_add_right _ _
    dsimp only
    by_cases hold : complete.length ≤ collector.committedSourceLen
    · rw [if_pos hold]
      exact ⟨none, collector, rfl, hnone⟩
    · rw [if_neg hold, slice_eq (Nat.le_of_not_le hold) hle]
      refine ⟨_, _, rfl, fun committed hcommitted => ?_⟩
      have htake : collector.buffer.take complete.length = complete := by
        rw [← hrest, List.take_left]
      rw [htake] at hcommitted
      cases hcommitted
      refine ⟨fun hempty => hold ?_, hterminated.drop _⟩
      exact List.drop_eq_nil_iff.mp hempty
  · rw [if_neg hnewline]
    exact ⟨none, collector, rfl, hnone⟩

lemma finalizeAndDrainSource_spec :
    ∃ remainder collector', collector.finalizeAndDrainSource = some (remainder, collector') ∧
      Terminated '\n' remainder := by
  rw [MarkdownStreamCollector.finalizeAndDrainSource]
  by_cases hdone : collector.buffer.length ≤ collector.committedSourceLen
  · rw [if_pos hdone]
    exact ⟨[], {}, rfl, Terminated.nil⟩
  · rw [if_neg hdone, slice_eq (Nat.le_of_not_le hdone) (le_refl _)]
    refine ⟨_, _, rfl, ?_⟩
    split_ifs with hends
    · rw [endsWith_singleton, decide_eq_true_iff] at hends
      intro x hx
      rw [hends] at hx
      exact (Option.some.inj hx).symm
    · exact Terminated.concat _

/-- The source that a delta completes. -/
def committedBy (core : StreamCore Line) (delta : Text) : Option Text :=
  if '\n' ∈ delta then
    (core.state.collector.pushDelta delta).commitCompleteSource.bind (·.1)
  else none

lemma Streamed.setState (h : Streamed env core) {state : StreamState Line}
    (hqueue : state.queuedLines = core.state.queuedLines) :
    Streamed env { core with state } :=
  ⟨⟨h.source, h.scanner, h.cache, h.rendered⟩, h.enqueued, h.inRange, hqueue ▸ h.queue⟩

lemma pushDelta_streamed (hkeeps : KeepsStableLines env) (h : Streamed env core) {delta : Text}
    (hrange : ∀ committed, committedBy core delta = some committed →
      core.emittedStableLen ≤ (renderSource env core.renderMode core.width
        (core.rawSource ++ committed)).length) :
    ∃ enqueued core', core.pushDelta env delta = some (enqueued, core') ∧
      Streamed env core' ∧ Extends env core core' := by
  have hstate : ∀ state : StreamState Line, state.queuedLines = core.state.queuedLines →
      Streamed env { core with state } ∧ Extends env core { core with state } :=
    fun _ hqueue => ⟨h.setState hqueue, rfl, le_refl _, rfl⟩
  rw [pushDelta]
  by_cases hnewline : '\n' ∈ delta
  · obtain ⟨out, collector, hcommit, hout⟩ :=
      commitCompleteSource_spec (core.state.collector.pushDelta delta)
    rw [committedBy, if_pos hnewline, hcommit, Option.bind_some] at hrange
    rw [if_pos hnewline]
    dsimp only
    rw [hcommit]
    cases out with
    | none => exact ⟨false, _, rfl, hstate _ rfl⟩
    | some committed =>
      obtain ⟨hne, hterminated⟩ := hout committed rfl
      obtain ⟨hstreamed, -⟩ := hstate
        { core.state with
          hasSeenDelta := core.state.hasSeenDelta || !delta.isEmpty
          collector := collector } rfl
      obtain ⟨enqueued, core', hcommitted, hstreamed', hextends⟩ :=
        commitSource_streamed hkeeps hstreamed hterminated hne (hrange committed rfl)
      exact ⟨enqueued, core', hcommitted, hstreamed',
        hextends.emitted, hextends.advances, hextends.kept⟩
  · rw [if_neg hnewline]
    exact ⟨false, _, rfl, hstate _ rfl⟩

/-! ### What was emitted -/

/-- The lines emitted since the last new layout follow the count at that layout in the render. -/
structure Shown (env : StreamEnv Line) (core : StreamCore Line) (count : ℕ) (lines : List Line) :
    Prop where
  le : count ≤ core.emittedStableLen
  lines : lines = (core.renderedLines.take core.emittedStableLen).drop count
  stable : core.emittedStableLen = count ∨ core.emittedStableLen ≤ boundary env core

lemma Shown.start (core : StreamCore Line) : Shown env core core.emittedStableLen [] :=
  ⟨le_refl _, (List.drop_eq_nil_of_le (List.length_take_le _ _)).symm, Or.inl rfl⟩

lemma Shown.extends {count : ℕ} (h : Shown env core count lines)
    (hextends : Extends env core core') :
    Shown env core' count lines := by
  have hstable : core.emittedStableLen ≤ count ∨ core.emittedStableLen ≤ boundary env core :=
    h.stable.imp le_of_eq id
  refine ⟨hextends.emitted ▸ h.le, ?_, ?_⟩
  · rw [hextends.emitted, hextends.slice_kept hstable]
    exact h.lines
  · rw [hextends.emitted]
    exact h.stable.imp id fun hle => hle.trans hextends.advances

lemma Shown.emits {count : ℕ} {shown : List Line} (h : Shown env core count shown)
    (hstreamed : Streamed env core) (hemits : Emits core lines core') :
    Shown env core' count (shown ++ lines) := by
  obtain ⟨n, hn, rfl, rfl⟩ := hemits
  obtain ⟨hle, hstable⟩ := hstreamed.enqueued_le_boundary hn
  refine ⟨h.le.trans (Nat.le_add_right _ _), ?_, ?_⟩
  · change shown ++ core.state.queuedLines.take n =
      (core.renderedLines.take (core.emittedStableLen + n)).drop count
    have hqueue : core.state.queuedLines.take n =
        (core.renderedLines.take (core.emittedStableLen + n)).drop core.emittedStableLen := by
      rw [hstreamed.queue, List.take_drop, List.take_take, Nat.min_eq_left hle]
    rw [hqueue, h.lines, drop_take_append_drop_take _ h.le (Nat.le_add_right _ _)]
  · rcases hstable with hzero | hboundary
    · rw [hzero]
      exact h.stable
    · exact Or.inr hboundary

/-- What `finalize_remaining` returns completes the lines emitted since the last new layout. -/
theorem finalizeRemaining_shown (hkeeps : KeepsStableLines env) (hstreamed : Streamed env core)
    {count : ℕ} (h : Shown env core count lines) :
    ∃ remaining core', core.finalizeRemaining env = some (remaining, core') ∧ lines ++ remaining =
        (renderSource env core'.renderMode core'.width core'.rawSource).drop count := by
  obtain ⟨remainder, collector, hdrain, hremainder⟩ :=
    finalizeAndDrainSource_spec core.state.collector
  rw [finalizeRemaining, hdrain]
  dsimp only
  generalize hfinal : renderSource env core.renderMode core.width
    (core.rawSource ++ remainder) = final
  have hremaining : lines ++ final.drop core.emittedStableLen = final.drop count := by
    rcases h.stable with hsame | hstable
    · have hlines := h.lines
      rw [hsame, List.drop_eq_nil_of_le (List.length_take_le _ _)] at hlines
      rw [hlines, hsame, List.nil_append]
    · by_cases hnil : core.rawSource = []
      · rw [boundary, hnil, stableBoundary_nil] at hstable
        have hzero := Nat.le_zero.mp hstable
        have hlines := h.lines
        have hcount : count = 0 := by
          have := h.le
          omega
        rw [hzero] at hlines
        rw [hlines, hzero, hcount]
        rfl
      · have hrendered : final =
            renderedSource env core.renderMode core.width (core.rawSource ++ remainder) := by
          rw [← hfinal, renderedSource, if_neg (List.append_ne_nil_of_left_ne_nil hnil _)]
        have hkept := renderedSource_kept hkeeps core.renderMode core.width hstreamed.source
          hremainder
        have hlength := stableBoundary_le_append hkeeps core.renderMode core.width
          hstreamed.source hremainder
        rw [← hrendered] at hkept hlength
        rw [← hstreamed.rendered] at hkept
        have htake := congrArg (List.take core.emittedStableLen) hkept
        rw [boundary] at hstable
        rw [List.take_take, List.take_take, Nat.min_eq_left hstable] at htake
        have hle : count ≤ (final.take core.emittedStableLen).length := by
          rw [List.length_take_of_le (hstable.trans hlength)]
          exact h.le
        rw [h.lines, ← htake, ← List.drop_append_of_le_length hle, List.take_append_drop]
  by_cases hdone : final.length ≤ core.emittedStableLen
  · rw [if_pos hdone]
    refine ⟨_, _, rfl, ?_⟩
    rw [List.drop_eq_nil_of_le hdone] at hremaining
    rw [hremaining, ← hfinal]
  · rw [if_neg hdone, slice_eq (Nat.le_of_not_le hdone) (le_refl _), List.take_length]
    refine ⟨_, _, rfl, ?_⟩
    rw [hremaining, ← hfinal]

end Invariant

end Codex.Streaming
