import Codex.Streaming.Invariant

/-!
# The streamed transcript

Runs of a stream, with the lines that its ticks emit since the last new width or mode.

* `RunInvariant.apply`: one call, under the condition;
* `meetsStep_of_sound`: a call that does not meet the condition leaves counters or a queue that
  disagree with the render;
* `transcriptSound_iff`: **in every state of a run the counters and the queue agree with the render,
  and the transcript has no line of the final render twice and skips none, exactly when every step
  meets the condition**;
* `drained_layout_repeats`: a narrower layout after everything was emitted.
-/

namespace Codex.Streaming

open Codex.Lib StreamCore

section Transcript

variable {Line : Type} (env : StreamEnv Line)

/-! ### Runs -/

/-- The calls on a stream. -/
inductive StreamOp where
  | pushDelta (delta : Text)
  | tick
  | tickBatch (maxLines : ℕ)
  | setWidth (width : Option ℕ)
  | setRenderMode (renderMode : HistoryRenderMode)

/-- A stream, the emitted count at its last new width or mode, and the lines emitted since. -/
structure StreamRun (Line : Type) where
  core : StreamCore Line
  countAtLayout : ℕ := 0
  emittedSince : List Line := []

/-- The lines that a tick emits. -/
def StreamRun.emit (run : StreamRun Line) (ticked : List Line × StreamCore Line) : StreamRun Line :=
  { run with core := ticked.2, emittedSince := run.emittedSince ++ ticked.1 }

variable (core : StreamCore Line)

/-- A new layout. -/
def StreamRun.startLayout : StreamRun Line :=
  { core, countAtLayout := core.emittedStableLen }

/-- One call; `none` is a panic. -/
def StreamRun.apply (run : StreamRun Line) : StreamOp → Option (StreamRun Line)
  | .pushDelta delta => (run.core.pushDelta env delta).map fun pushed =>
      { run with core := pushed.2 }
  | .tick => some (run.emit run.core.tick)
  | .tickBatch maxLines => some (run.emit (run.core.tickBatch maxLines))
  | .setWidth width =>
    if run.core.width = width then some run
    else (run.core.setWidth env width).map StreamRun.startLayout
  | .setRenderMode renderMode =>
    if run.core.renderMode = renderMode then some run
    else (run.core.setRenderMode env renderMode).map StreamRun.startLayout

/-- The condition on a call: a commit does not render fewer lines than were emitted, and a new
layout does not render more lines after everything was emitted. -/
def MeetsStep : StreamOp → Prop
  | .pushDelta delta => ∀ committed, committedBy core delta = some committed →
      core.emittedStableLen ≤ (renderSource env core.renderMode core.width
        (core.rawSource ++ committed)).length
  | .setWidth width => core.width ≠ width → KeepsDrained env core core.renderMode width
  | .setRenderMode renderMode =>
    core.renderMode ≠ renderMode → KeepsDrained env core renderMode core.width
  | .tick | .tickBatch _ => True

/-- Every step of the run meets the condition. -/
def MeetsRun (run : StreamRun Line) : List StreamOp → Prop
  | [] => True
  | op :: ops => MeetsStep env run.core op ∧ ∀ run', run.apply env op = some run' →
      MeetsRun run' ops

instance decidableMeetsStep (core : StreamCore Line) :
    (op : StreamOp) → Decidable (MeetsStep env core op)
  | .pushDelta delta => inferInstanceAs (Decidable (∀ committed ∈ committedBy core delta, _ ≤ _))
  | .setWidth _ => inferInstanceAs (Decidable (_ ≠ _ → _ ≠ _ → _ = _ → _ = _ → _ < _ → _ ≤ _))
  | .setRenderMode _ => inferInstanceAs (Decidable (_ ≠ _ → _ ≠ _ → _ = _ → _ = _ → _ < _ → _ ≤ _))
  | .tick => isTrue trivial
  | .tickBatch _ => isTrue trivial

instance decidableMeetsRun : (run : StreamRun Line) → (ops : List StreamOp) →
    Decidable (MeetsRun env run ops)
  | _, [] => isTrue trivial
  | run, op :: ops =>
    have := fun run' => decidableMeetsRun run' ops
    inferInstanceAs (Decidable (_ ∧ ∀ run' ∈ run.apply env op, MeetsRun env run' ops))

/-- The counters are in order, and the queue holds the rendered lines between them. -/
def Sound : Prop :=
  core.emittedStableLen ≤ core.enqueuedStableLen ∧
    core.enqueuedStableLen ≤ core.renderedLines.length ∧
    core.state.queuedLines =
      (core.renderedLines.take core.enqueuedStableLen).drop core.emittedStableLen

variable {env}

lemma Streamed.sound {core : StreamCore Line} (h : Streamed env core) : Sound core :=
  ⟨h.emitted_le, h.inRange, h.queue⟩

/-- What a run keeps. -/
structure RunInvariant (env : StreamEnv Line) (run : StreamRun Line) : Prop where
  streamed : Streamed env run.core
  shown : Shown env run.core run.countAtLayout run.emittedSince

variable {run : StreamRun Line}

lemma RunInvariant.emit (h : RunInvariant env run)
    {ticked : List Line × StreamCore Line} (hemits : Emits run.core ticked.1 ticked.2) :
    RunInvariant env (run.emit ticked) :=
  ⟨hemits.streamed h.streamed, h.shown.emits h.streamed hemits⟩

lemma RunInvariant.startLayout {core : StreamCore Line} (h : Streamed env core) :
    RunInvariant env (StreamRun.startLayout core) :=
  ⟨h, Shown.start core⟩

lemma RunInvariant.apply (hkeeps : KeepsStableLines env)
    (h : RunInvariant env run) {op : StreamOp} (hmeets : MeetsStep env run.core op) :
    ∃ run', run.apply env op = some run' ∧ RunInvariant env run' := by
  cases op with
  | pushDelta delta =>
    obtain ⟨enqueued, core', hpush, hstreamed, hextends⟩ :=
      pushDelta_streamed hkeeps h.streamed hmeets
    refine ⟨{ run with core := core' }, ?_, hstreamed, h.shown.extends hextends⟩
    rw [StreamRun.apply, hpush]
    rfl
  | tick => exact ⟨_, rfl, h.emit (tick_emits run.core)⟩
  | tickBatch maxLines => exact ⟨_, rfl, h.emit (tickBatch_emits run.core maxLines)⟩
  | setWidth width =>
    rw [StreamRun.apply]
    by_cases hsame : run.core.width = width
    · rw [if_pos hsame]
      exact ⟨run, rfl, h⟩
    · obtain ⟨core', hlayout, hstreamed⟩ := relayout_streamed h.streamed (hmeets hsame)
      rw [if_neg hsame, setWidth, if_neg hsame]
      exact ⟨_, congrArg (Option.map StreamRun.startLayout) hlayout,
        RunInvariant.startLayout hstreamed⟩
  | setRenderMode renderMode =>
    rw [StreamRun.apply]
    by_cases hsame : run.core.renderMode = renderMode
    · rw [if_pos hsame]
      exact ⟨run, rfl, h⟩
    · obtain ⟨core', hlayout, hstreamed⟩ := relayout_streamed h.streamed (hmeets hsame)
      rw [if_neg hsame, setRenderMode, if_neg hsame]
      exact ⟨_, congrArg (Option.map StreamRun.startLayout) hlayout,
        RunInvariant.startLayout hstreamed⟩

lemma RunInvariant.new (env : StreamEnv Line) (width : Option ℕ) (renderMode : HistoryRenderMode) :
    RunInvariant env { core := StreamCore.new width renderMode } := by
  refine ⟨⟨⟨Terminated.nil, rfl, fun _ hcache => absurd hcache nofun, rfl⟩, ?_, le_refl _, rfl⟩,
    Shown.start _⟩
  change 0 = max (stableBoundary env renderMode width []) 0
  rw [stableBoundary_nil]
  rfl

/-! ### The condition is needed -/

variable {core core' : StreamCore Line}

lemma enqueueRendered_kept {start target : ℕ} (h : core.enqueueRendered start target = some core') :
    core'.renderedLines = core.renderedLines ∧ core'.emittedStableLen = core.emittedStableLen := by
  rw [enqueueRendered, Option.map_eq_some_iff] at h
  obtain ⟨lines, -, rfl⟩ := h
  exact ⟨rfl, rfl⟩

lemma requeue_kept {target : ℕ} (h : core.requeue target = some core') :
    core'.renderedLines = core.renderedLines ∧ core'.emittedStableLen = core.emittedStableLen := by
  rw [requeue] at h
  dsimp only at h
  split_ifs at h
  · obtain ⟨hrendered, hemitted⟩ := enqueueRendered_kept h
    exact ⟨hrendered, hemitted⟩
  · cases h
    exact ⟨rfl, rfl⟩

lemma syncStableQueue_kept (hcoherent : Coherent env core) {enqueued : Bool}
    (h : core.syncStableQueue env = some (enqueued, core')) :
    core'.renderedLines = core.renderedLines ∧ core'.emittedStableLen = core.emittedStableLen := by
  obtain ⟨cache, htarget, -⟩ := computeTargetStableLen_measures hcoherent
  rw [syncStableQueue, htarget] at h
  dsimp only at h
  split_ifs at h
  · obtain ⟨requeued, hrequeue, hpair⟩ := Option.map_eq_some_iff.mp h
    obtain ⟨-, rfl⟩ := Prod.mk.inj hpair
    obtain ⟨hrendered, hemitted⟩ := requeue_kept hrequeue
    exact ⟨hrendered, hemitted⟩
  · obtain ⟨-, rfl⟩ := Prod.mk.inj (Option.some.inj h)
    exact ⟨rfl, rfl⟩
  · obtain ⟨requeued, henqueue, hpair⟩ := Option.map_eq_some_iff.mp h
    obtain ⟨-, rfl⟩ := Prod.mk.inj hpair
    obtain ⟨hrendered, hemitted⟩ := enqueueRendered_kept henqueue
    exact ⟨hrendered, hemitted⟩

/-- After a commit whose render is shorter than what was emitted, the counters are out of range. -/
theorem meetsStep_of_pushDelta (h : Streamed env core) {delta : Text} {enqueued : Bool}
    (hpush : core.pushDelta env delta = some (enqueued, core')) (hsound : Sound core') :
    MeetsStep env core (.pushDelta delta) := by
  intro committed hcommitted
  obtain ⟨out, collector, hcommit, hout⟩ :=
    commitCompleteSource_spec (core.state.collector.pushDelta delta)
  rw [committedBy] at hcommitted
  by_cases hnewline : '\n' ∈ delta
  · rw [if_pos hnewline, hcommit, Option.bind_some] at hcommitted
    dsimp only at hcommitted
    subst hcommitted
    obtain ⟨hne, hterminated⟩ := hout committed rfl
    rw [pushDelta, if_pos hnewline] at hpush
    dsimp only at hpush
    rw [hcommit] at hpush
    have hstreamed : Streamed env { core with
        state := { core.state with
          hasSeenDelta := core.state.hasSeenDelta || !delta.isEmpty
          collector := collector } } := h.setState rfl
    obtain ⟨hrendered, hemitted⟩ := syncStableQueue_kept
      (appendSource_coherent hstreamed.toCoherent hterminated hne) hpush
    obtain ⟨hle, hrange, -⟩ := hsound
    have hemitted' : core'.emittedStableLen = core.emittedStableLen := hemitted
    have hrendered' : core'.renderedLines = renderSource env core.renderMode core.width
      (core.rawSource ++ committed) := hrendered
    rw [hemitted'] at hle
    rw [hrendered'] at hrange
    exact hle.trans hrange
  · simp [if_neg hnewline] at hcommitted

/-- After everything was emitted, a new layout with more lines queues nothing of them. -/
theorem keepsDrained_of_relayout {renderMode : HistoryRenderMode} {width : Option ℕ}
    (hlayout : relayout env { core with renderMode, width }
      (!core.state.queuedLines.isEmpty) core.hasTail = some core')
    (hsound : Sound core') :
    KeepsDrained env core renderMode width := by
  intro hnil hqueue htail hpos
  by_contra hmore
  rw [relayout, if_neg hnil, hqueue, htail] at hlayout
  have hclamp : clampEmitted core.emittedStableLen
      (renderSource env renderMode width core.rawSource).length false = core.emittedStableLen :=
    Nat.min_eq_left (Nat.le_of_not_le hmore)
  have hlate : 0 < clampEmitted core.emittedStableLen
      (renderSource env renderMode width core.rawSource).length false := by rwa [hclamp]
  dsimp only at hlayout
  rw [if_pos ⟨hlate, rfl, rfl⟩] at hlayout
  cases hlayout
  have hlines : [] = ((renderSource env renderMode width core.rawSource).take
      (renderSource env renderMode width core.rawSource).length).drop
        (clampEmitted core.emittedStableLen
          (renderSource env renderMode width core.rawSource).length false) := hsound.2.2
  rw [hclamp, List.take_length] at hlines
  exact hmore (List.drop_eq_nil_iff.mp hlines.symm)

lemma meetsStep_of_sound {run run' : StreamRun Line} (h : Streamed env run.core)
    {op : StreamOp} (happly : run.apply env op = some run') (hsound : Sound run'.core) :
    MeetsStep env run.core op := by
  cases op with
  | pushDelta delta =>
    obtain ⟨pushed, hpush, rfl⟩ := Option.map_eq_some_iff.mp happly
    exact meetsStep_of_pushDelta h hpush hsound
  | tick => trivial
  | tickBatch maxLines => trivial
  | setWidth width =>
    intro hsame
    rw [StreamRun.apply, if_neg hsame, setWidth, if_neg hsame] at happly
    obtain ⟨core', hlayout, rfl⟩ := Option.map_eq_some_iff.mp happly
    exact keepsDrained_of_relayout hlayout hsound
  | setRenderMode renderMode =>
    intro hsame
    rw [StreamRun.apply, if_neg hsame, setRenderMode, if_neg hsame] at happly
    obtain ⟨core', hlayout, rfl⟩ := Option.map_eq_some_iff.mp happly
    exact keepsDrained_of_relayout hlayout hsound

/-! ### The transcript -/

/-- The counters and the queue agree with the render; the lines emitted since the last new layout,
with those that remain, are the lines of the final render after the count at that layout. -/
def TranscriptSound (env : StreamEnv Line) (run : StreamRun Line) : Prop :=
  Sound run.core ∧ ∃ remaining core', run.core.finalizeRemaining env = some (remaining, core') ∧
    run.emittedSince ++ remaining =
      (renderSource env core'.renderMode core'.width core'.rawSource).drop run.countAtLayout

lemma RunInvariant.transcriptSound (hkeeps : KeepsStableLines env)
    (h : RunInvariant env run) : TranscriptSound env run :=
  ⟨h.streamed.sound, finalizeRemaining_shown hkeeps h.streamed h.shown⟩

/-- **The transcript of a stream.** Every state of a run is reached without a slice out of range and
has a sound transcript, exactly when every step of the run meets the condition. -/
theorem transcriptSound_iff (hkeeps : KeepsStableLines env) (width : Option ℕ)
    (renderMode : HistoryRenderMode) (ops : List StreamOp) :
    (∀ earlier later, ops = earlier ++ later →
      ∃ run, earlier.foldlM (StreamRun.apply env) { core := StreamCore.new width renderMode } =
        some run ∧ TranscriptSound env run) ↔
    MeetsRun env { core := StreamCore.new width renderMode } ops := by
  have hstart := RunInvariant.new env width renderMode
  generalize ({ core := StreamCore.new width renderMode } : StreamRun Line) = run at hstart ⊢
  induction ops generalizing run with
  | nil =>
    refine ⟨fun _ => trivial, fun _ earlier later hops => ?_⟩
    obtain ⟨rfl, -⟩ := List.append_eq_nil_iff.mp hops.symm
    exact ⟨run, rfl, hstart.transcriptSound hkeeps⟩
  | cons op ops ih =>
    constructor
    · intro hall
      obtain ⟨run₁, happly, hsound⟩ := hall [op] ops rfl
      simp only [List.foldlM_cons, List.foldlM_nil, bind_pure] at happly
      have hmeets := meetsStep_of_sound hstart.streamed happly hsound.1
      refine ⟨hmeets, fun run' happly' => ?_⟩
      obtain ⟨run'', happly'', hinvariant⟩ := hstart.apply hkeeps hmeets
      obtain rfl := Option.some.inj (happly'.symm.trans happly'')
      refine (ih run' hinvariant).mp fun earlier later hops => ?_
      obtain ⟨run₃, hrun, hsound⟩ := hall (op :: earlier) later (by rw [hops, List.cons_append])
      rw [List.foldlM_cons, happly'] at hrun
      exact ⟨run₃, hrun, hsound⟩
    · rintro ⟨hmeets, hrest⟩ earlier later hops
      cases earlier with
      | nil => exact ⟨run, rfl, hstart.transcriptSound hkeeps⟩
      | cons first earlier =>
        obtain ⟨rfl, hrest'⟩ := List.cons.inj hops
        obtain ⟨run₁, happly, hinvariant⟩ := hstart.apply hkeeps hmeets
        obtain ⟨run₂, hrun, hsound⟩ :=
          (ih run₁ hinvariant).mpr (hrest run₁ happly) earlier later hrest'
        refine ⟨run₂, ?_, hsound⟩
        rw [List.foldlM_cons, happly]
        exact hrun

end Transcript

/-! ### A renderer that wraps -/

/-- A renderer that shows one character a line where the width is bounded. -/
def wrapEnv : StreamEnv Text where
  renderMarkdown source width :=
    match width with
    | none => rawLinesFromSource source
    | some _ => (rawLinesFromSource source).flatten.map fun c => [c]
  plainLine line := line

lemma wrapEnv_keeps : KeepsStableLines wrapEnv := by
  intro width source chunk hnil hsource hchunk
  have happend : wrapEnv.renderMarkdown (source ++ chunk) width =
      wrapEnv.renderMarkdown source width ++ wrapEnv.renderMarkdown chunk width := by
    cases width with
    | none => exact rawLinesFromSource_append hsource chunk
    | some width =>
      dsimp only [wrapEnv]
      rw [rawLinesFromSource_append hsource, List.flatten_append, List.map_append]
  have hle : stableBoundary wrapEnv .rich width source ≤
      (wrapEnv.renderMarkdown source width).length := by
    have hle := stableBoundary_le wrapEnv .rich width source
    rwa [renderedSource, if_neg hnil] at hle
  rw [happend, List.take_append_of_le_length hle]

/-- A line that is emitted stays one line in a narrower layout, where the next line is two. -/
theorem transcriptSound_wrap :
    ∃ run, [.pushDelta "a\n".toList, .tick, .setWidth (some 1), .pushDelta "bc\n".toList,
        .tick].foldlM (StreamRun.apply wrapEnv) { core := StreamCore.new none .rich } = some run ∧
      TranscriptSound wrapEnv run :=
  (transcriptSound_iff wrapEnv_keeps none .rich _).mpr (by decide +kernel) _ [] rfl

/-- A line that is emitted, and a narrower layout that shows it as two. -/
def drainedLayout : Option (StreamRun Text) :=
  [.pushDelta "ab\n".toList, .tick, .setWidth (some 1), .pushDelta "c\n".toList, .tick].foldlM
    (StreamRun.apply wrapEnv) { core := StreamCore.new none .rich }

/-- The second of them is skipped, and the line that is emitted next is returned again at the
end. -/
theorem drained_layout_repeats :
    KeepsStableLines wrapEnv ∧ ∃ run, drainedLayout = some run ∧ ¬TranscriptSound wrapEnv run ∧
        run.emittedSince = ["c".toList] ∧
        (run.core.finalizeRemaining wrapEnv).map (·.1) = some ["c".toList] ∧
        (renderSource wrapEnv .rich (some 1) "ab\nc\n".toList).drop run.countAtLayout =
          ["b".toList, "c".toList] := by
  have hqueue : (drainedLayout.map fun run => decide (run.core.state.queuedLines =
      (run.core.renderedLines.take run.core.enqueuedStableLen).drop run.core.emittedStableLen)) =
        some false := by decide +kernel
  have hemitted : drainedLayout.map StreamRun.emittedSince = some ["c".toList] := by
    decide +kernel
  have hremaining : (drainedLayout.map fun run =>
      (run.core.finalizeRemaining wrapEnv).map (·.1)) = some (some ["c".toList]) := by
    decide +kernel
  have hcount : drainedLayout.map StreamRun.countAtLayout = some 1 := by decide +kernel
  obtain ⟨run, hrun⟩ := Option.isSome_iff_exists.mp (by decide +kernel : drainedLayout.isSome)
  rw [hrun, Option.map_some, Option.some.injEq] at hqueue hemitted hremaining hcount
  refine ⟨wrapEnv_keeps, run, hrun, fun hsound => ?_, hemitted, hremaining, ?_⟩
  · exact of_decide_eq_false hqueue hsound.1.2.2
  · rw [hcount]
    decide +kernel

end Codex.Streaming
