import Codex.Rollout.Recorder
import Mathlib.Algebra.BigOperators.Group.List.Basic
import Mathlib.Algebra.GroupWithZero.Nat

/-!
# Compressing rollouts in the background

`rollout/src/compression.rs`: a rollout is a plain file or a compressed sibling of it. A worker
replaces cold plain files by compressed ones, and whoever wants to append first puts the plain file
back; neither takes a lock. One step here is one file system operation of one of them, and any step
can fail, which ends the call.

A handle is to an inode: what is appended through it after the name is gone is in no file. The
compression is lossless, so a compressed file is given by its lines.
-/

namespace Codex.Rollout

/-! ### Files -/

/-- A file of lines, with the metadata that is compared. -/
structure File where
  lines : List Bytes
  modified : ℕ
  permissions : ℕ

/-- The length of lines in bytes, with their ends. -/
def sizeOf (lines : List Bytes) : ℕ := (lines.map fun line => line.length + 1).sum

structure FileState where
  len : ℕ
  modified : ℕ
  permissions : ℕ
  deriving DecidableEq

/-- What `metadata` says about the file. -/
def File.state (file : File) : FileState := ⟨sizeOf file.lines, file.modified, file.permissions⟩

/-- `MIN_ROLLOUT_AGE`, in seconds -/
def minRolloutAge : ℕ := 7 * 24 * 60 * 60

/-! ### The two sides -/

/-- Where `compress_rollout_if_cold_blocking` stands, with what it has seen; `placed` and
`rechecked` have the file that it has put in place. -/
inductive WorkerStage where
  | idle
  | cold (before : FileState)
  | uncompressed (before : FileState)
  | reading (before : FileState) (input : ℕ)
  | encoded (before : FileState) (lines : List Bytes)
  | checked (before : FileState) (lines : List Bytes)
  | placed (before : FileState) (file : File)
  | changed
  | rechecked (file : File)

/-- The worker has looked for the last time and unlinks the plain file next. -/
def WorkerStage.isRechecked : WorkerStage → Bool
  | .rechecked _ => true
  | _ => false

/-- Where a `materialize_rollout_for_append_blocking` stands, and the opening of the path that it
returns. -/
inductive AppenderStage where
  | start
  | plainMissing
  | compressedFound
  | statted (permissions : ℕ)
  | decoding (permissions : ℕ) (input : File)
  | decoded (temp : File)
  | linked
  | resolved
  | writing (handle : ℕ)
  | finished

/-- The rollout's two names with the inodes of plain files, and where everyone stands. `appended`
are the lines whose append has succeeded. -/
structure System where
  inodes : ℕ → File
  next : ℕ
  plain : Option ℕ
  compressed : Option File
  worker : WorkerStage
  appenders : ℕ → AppenderStage
  appended : List Bytes

namespace System

/-- A rollout before anyone touches it. -/
def initial (plain compressed : Option File) : System where
  inodes _ := plain.getD ⟨[], 0, 0⟩
  next := 1
  plain := plain.map fun _ => 0
  compressed := compressed
  worker := .idle
  appenders _ := .start
  appended := []

variable (s : System)

/-- The file of `existing_rollout_path`, decompressed -/
def logical : Option (List Bytes) :=
  match s.plain with
  | some p => some (s.inodes p).lines
  | none => s.compressed.map File.lines

def sameFileState (expected : FileState) : Bool :=
  match s.plain with
  | some p => (s.inodes p).state = expected
  | none => false

/-- `compress_rollout_if_cold_blocking`, its next operation; after the last one another call
can follow. The clock shows `now`. -/
def workerStep (now : ℕ) (s : System) : System :=
  match s.worker with
  | .idle =>
    match s.plain with
    | none => s
    | some p =>
      if now - (s.inodes p).modified < minRolloutAge then s
      else { s with worker := .cold (s.inodes p).state }
  | .cold before =>
    { s with worker := if s.compressed.isSome then .idle else .uncompressed before }
  | .uncompressed before =>
    match s.plain with
    | none => { s with worker := .idle }
    | some p => { s with worker := .reading before p }
  | .reading before input => { s with worker := .encoded before (s.inodes input).lines }
  | .encoded before lines =>
    { s with worker := if s.sameFileState before then .checked before lines else .idle }
  | .checked before lines =>
    match s.compressed with
    | some _ => { s with worker := .idle }
    | none =>
      let file : File := ⟨lines, before.modified, before.permissions⟩
      { s with compressed := some file, worker := .placed before file }
  | .placed before file =>
    { s with worker := if s.sameFileState before then .rechecked file else .changed }
  | .changed => { s with compressed := none, worker := .idle }
  | .rechecked _ => { s with plain := none, worker := .idle }

/-- The appender's next operation is at the stage. -/
def setAppender (i : ℕ) (stage : AppenderStage) : System :=
  { s with appenders := Function.update s.appenders i stage }

/-- The plain file is a new one. -/
def createPlain (file : File) : System :=
  { s with
    inodes := Function.update s.inodes s.next file
    next := s.next + 1
    plain := some s.next }

/-- `materialize_rollout_for_append_blocking` and the opening of its path, the next
operation; `creates` says that the path is opened with `create(true)`, as `open_log_file` does. -/
def appenderStep (creates : Bool) (i now : ℕ) (s : System) : System :=
  match s.appenders i with
  | .start => s.setAppender i (if s.plain.isSome then .resolved else .plainMissing)
  | .plainMissing =>
    s.setAppender i (if s.compressed.isSome then .compressedFound else .resolved)
  | .compressedFound =>
    match s.compressed with
    | none => s.setAppender i .finished
    | some file => s.setAppender i (.statted file.permissions)
  | .statted permissions =>
    match s.compressed with
    | none => s.setAppender i .finished
    | some file => s.setAppender i (.decoding permissions file)
  | .decoding permissions input => s.setAppender i (.decoded ⟨input.lines, now, permissions⟩)
  | .decoded temp =>
    match s.plain with
    | some _ => s.setAppender i .linked
    | none => (s.createPlain temp).setAppender i .linked
  | .linked => { s with compressed := none }.setAppender i .resolved
  | .resolved =>
    match s.plain with
    | some p => s.setAppender i (.writing p)
    | none =>
      if creates then (s.createPlain ⟨[], now, 0⟩).setAppender i (.writing s.next)
      else s.setAppender i .finished
  | .writing _ | .finished => s

/-- An append through the handle of an appender. -/
def append (i : ℕ) (line : Bytes) (now : ℕ) (s : System) : System :=
  match s.appenders i with
  | .writing handle =>
    let file := s.inodes handle
    { s with
      inodes := Function.update s.inodes handle
        { file with lines := file.lines ++ [line], modified := now }
      appended := s.appended ++ [line] }
  | _ => s

end System

/-! ### Runs -/

/-- Whose operation is next, at what time; a call can fail at any of its operations. -/
inductive Event where
  | worker (now : ℕ)
  | workerFails
  | appender (i now : ℕ)
  | appenderFails (i : ℕ)
  | append (i : ℕ) (line : Bytes) (now : ℕ)

namespace System

variable (creates : ℕ → Bool) (s : System)

def step : Event → System
  | .worker now => s.workerStep now
  | .workerFails => { s with worker := .idle }
  | .appender i now => s.appenderStep (creates i) i now
  | .appenderFails i => s.setAppender i .finished
  | .append i line now => s.append i line now

def run (events : List Event) : System := events.foldl (step creates) s

/-- The operation finds what its call has seen before: a line is appended to the file that has the
plain name, and not between the worker's last look and its unlinking; a decompressed file is linked
while the compressed one still has its lines; the compressed file is unlinked while there is a plain
one; the path that is opened and created is there; and the worker unlinks the plain file while its
compressed one is there. -/
def fresh : Event → Bool
  | .append i _ _ =>
    match s.appenders i with
    | .writing handle =>
      s.plain = some handle && !s.worker.isRechecked
    | _ => true
  | .appender i _ =>
    match s.appenders i with
    | .decoded temp => s.plain.isSome || s.compressed.map File.lines = some temp.lines
    | .linked => s.plain.isSome
    | .resolved => s.plain.isSome || !creates i
    | _ => true
  | .worker _ =>
    match s.worker with
    | .rechecked file => s.compressed.map File.lines = some file.lines
    | _ => true
  | .workerFails | .appenderFails _ => true

/-- All operations of a run find what their calls have seen. -/
def allFresh (s : System) : List Event → Bool
  | [] => true
  | event :: events => s.fresh creates event && (s.step creates event).allFresh events

end System

/-! ### What every operation keeps -/

lemma sizeOf_append (older newer : List Bytes) :
    sizeOf (older ++ newer) = sizeOf older + sizeOf newer := by
  rw [sizeOf, List.map_append, List.sum_append]
  rfl

/-- A file that only grows is as it was where it has its length. -/
theorem eq_of_prefix_of_sizeOf_le {older newer : List Bytes} (hgrows : older <+: newer)
    (hle : sizeOf newer ≤ sizeOf older) : older = newer := by
  obtain ⟨rest, rfl⟩ := hgrows
  rw [sizeOf_append] at hle
  cases rest with
  | nil => exact (List.append_nil _).symm
  | cons line rest =>
    have hpos : sizeOf (line :: rest) = line.length + 1 + sizeOf rest := List.sum_cons
    omega

/-- What the worker knows of the plain file that it found with the lines `lines`. -/
def WorkerStage.Holds (plain : Option ℕ) (lines : List Bytes) : WorkerStage → Prop
  | .idle => True
  | .cold before | .uncompressed before => before.len ≤ sizeOf lines
  | .reading before input => plain = some input ∧ before.len ≤ sizeOf lines
  | .encoded before read | .checked before read => read <+: lines ∧ before.len ≤ sizeOf read
  | .placed before file => file.lines <+: lines ∧ before.len ≤ sizeOf file.lines
  | .changed => True
  | .rechecked file => file.lines = lines

/-- The worker goes on with a file that has grown, unless it has looked for the last time. -/
theorem WorkerStage.Holds.grow {plain : Option ℕ} {lines lines' : List Bytes}
    {stage : WorkerStage} (h : stage.Holds plain lines) (hle : sizeOf lines ≤ sizeOf lines')
    (hgrows : lines <+: lines') (hstage : stage.isRechecked = false) :
    stage.Holds plain lines' := by
  cases stage with
  | idle => trivial
  | cold before => exact Nat.le_trans h hle
  | uncompressed before => exact Nat.le_trans h hle
  | reading before input => exact ⟨h.1, Nat.le_trans h.2 hle⟩
  | encoded before read => exact ⟨h.1.trans hgrows, h.2⟩
  | checked before read => exact ⟨h.1.trans hgrows, h.2⟩
  | placed before file => exact ⟨h.1.trans hgrows, h.2⟩
  | changed => trivial
  | rechecked file => cases hstage

/-- The rollout has the original lines and those that are appended; while the worker is at work
there is a plain file. -/
structure Intact (original : List Bytes) (s : System) : Prop where
  logical : s.logical = some (original ++ s.appended)
  worker : s.worker = .idle ∨ ∃ p, s.plain = some p ∧ s.worker.Holds (some p) (s.inodes p).lines

lemma System.logical_of_plain {s : System} {p : ℕ} (h : s.plain = some p) :
    s.logical = some (s.inodes p).lines := by
  rw [System.logical, h]

namespace Intact

variable {original : List Bytes} {s : System} {creates : ℕ → Bool} (h : Intact original s)
include h

lemma idle : Intact original { s with worker := .idle } :=
  ⟨h.logical, .inl rfl⟩

lemma setWorker {p : ℕ} (hplain : s.plain = some p)
    {stage : WorkerStage} (hstage : stage.Holds (some p) (s.inodes p).lines) :
    Intact original { s with worker := stage } :=
  ⟨h.logical, .inr ⟨p, hplain, hstage⟩⟩

/-- The compressed file is of no matter while there is a plain one. -/
theorem setCompressed (hplain : s.plain.isSome = true)
    (compressed : Option File) : Intact original { s with compressed := compressed } := by
  obtain ⟨p, hplain⟩ := Option.isSome_iff_exists.mp hplain
  refine ⟨?_, h.worker⟩
  rw [← h.logical, System.logical_of_plain hplain]
  exact System.logical_of_plain hplain

lemma setAppender (i : ℕ) (stage : AppenderStage) :
    Intact original (s.setAppender i stage) := ⟨h.logical, h.worker⟩

omit h

lemma sameFileState_eq {s : System} {p : ℕ} (hplain : s.plain = some p) {before : FileState}
    (hsame : s.sameFileState before = true) : sizeOf (s.inodes p).lines = before.len := by
  rw [System.sameFileState, hplain] at hsame
  rw [← of_decide_eq_true hsame]
  rfl

variable (h : Intact original s)
include h

lemma workerStep_idle (hidle : s.worker = .idle) (now : ℕ) :
    Intact original (s.workerStep now) := by
  rw [System.workerStep, hidle]
  simp only
  split
  next => exact h
  next p hplain =>
    split_ifs
    · exact h
    · exact h.setWorker hplain (Nat.le_refl (sizeOf (s.inodes p).lines))

lemma workerStep {now : ℕ}
    (hfresh : s.fresh creates (.worker now) = true) : Intact original (s.workerStep now) := by
  rcases h.worker with hidle | ⟨p, hplain, hholds⟩
  · exact h.workerStep_idle hidle now
  · cases hworker : s.worker with
    | idle => exact h.workerStep_idle hworker now
    | cold before =>
      rw [hworker] at hholds
      rw [System.workerStep, hworker]
      simp only
      split_ifs
      · exact h.idle
      · exact h.setWorker hplain hholds
    | uncompressed before =>
      rw [hworker] at hholds
      rw [System.workerStep, hworker]
      simp only
      split
      next => exact h.idle
      next input hinput =>
        obtain rfl := Option.some.inj (hplain.symm.trans hinput)
        apply h.setWorker hplain
        exact ⟨rfl, hholds⟩
    | reading before input =>
      rw [hworker] at hholds
      obtain ⟨hinput, hlen⟩ := hholds
      cases hinput
      rw [System.workerStep, hworker]
      apply h.setWorker hplain
      exact ⟨List.prefix_refl _, hlen⟩
    | encoded before lines =>
      rw [hworker] at hholds
      rw [System.workerStep, hworker]
      simp only
      split_ifs
      · exact h.setWorker hplain hholds
      · exact h.idle
    | checked before lines =>
      rw [hworker] at hholds
      rw [System.workerStep, hworker]
      simp only
      split
      next => exact h.idle
      next =>
        have hplaced := h.setCompressed (by rw [hplain]; rfl)
          (some ⟨lines, before.modified, before.permissions⟩)
        apply hplaced.setWorker hplain
        exact hholds
    | placed before file =>
      rw [hworker] at hholds
      rw [System.workerStep, hworker]
      simp only
      split_ifs with hsame
      · apply h.setWorker hplain
        apply eq_of_prefix_of_sizeOf_le hholds.1
        rw [sameFileState_eq hplain hsame]
        exact hholds.2
      · exact h.setWorker hplain trivial
    | changed =>
      rw [System.workerStep, hworker]
      exact (h.setCompressed (by rw [hplain]; rfl) none).idle
    | rechecked file =>
      rw [hworker] at hholds
      rw [System.fresh, hworker] at hfresh
      have hlines : s.compressed.map File.lines = some file.lines := of_decide_eq_true hfresh
      rw [System.workerStep, hworker]
      refine ⟨?_, .inl rfl⟩
      rw [← h.logical, System.logical_of_plain hplain, ← show file.lines = _ from hholds]
      exact hlines

/-- A plain file with the lines of the rollout takes the free name. -/
theorem createPlain (hplain : s.plain = none) {file : File}
    (hlines : s.compressed.map File.lines = some file.lines) :
    Intact original (s.createPlain file) := by
  have hidle : s.worker = .idle := by
    rcases h.worker with hidle | ⟨p, hsome, -⟩
    · exact hidle
    · cases hsome.symm.trans hplain
  refine ⟨?_, .inl hidle⟩
  have hlogical : s.logical = some file.lines := by
    rw [System.logical, hplain]
    exact hlines
  have hnew : (s.createPlain file).logical =
      some (Function.update s.inodes s.next file s.next).lines :=
    System.logical_of_plain rfl
  rw [hnew, Function.update_self, ← hlogical]
  exact h.logical

lemma appenderStep {i now : ℕ} (hfresh : s.fresh creates (.appender i now) = true) :
    Intact original (s.appenderStep (creates i) i now) := by
  rw [System.appenderStep]
  rw [System.fresh] at hfresh
  cases hstage : s.appenders i with
  | start => exact h.setAppender i _
  | plainMissing => exact h.setAppender i _
  | compressedFound =>
    simp only
    split
    next => exact h.setAppender i _
    next => exact h.setAppender i _
  | statted permissions =>
    simp only
    split
    next => exact h.setAppender i _
    next => exact h.setAppender i _
  | decoding permissions input => exact h.setAppender i _
  | decoded temp =>
    rw [hstage] at hfresh
    simp only
    split
    next => exact h.setAppender i _
    next hplain =>
      apply Intact.setAppender
      apply h.createPlain hplain
      simpa [hplain] using hfresh
  | linked =>
    rw [hstage] at hfresh
    exact (h.setCompressed hfresh none).setAppender i _
  | resolved =>
    rw [hstage] at hfresh
    simp only
    split
    next => exact h.setAppender i _
    next hplain =>
      split_ifs with hcreates
      · simp [hplain, hcreates] at hfresh
      · exact h.setAppender i _
  | writing handle => exact h
  | finished => exact h

lemma append {i now : ℕ} {line : Bytes} (hfresh : s.fresh creates (.append i line now) = true) :
    Intact original (s.append i line now) := by
  rw [System.append]
  rw [System.fresh] at hfresh
  cases hstage : s.appenders i with
  | writing handle =>
    rw [hstage, Bool.and_eq_true] at hfresh
    obtain ⟨hhandle, hworker⟩ := hfresh
    rw [Bool.not_eq_true'] at hworker
    have hplain : s.plain = some handle := of_decide_eq_true hhandle
    have hlogical := h.logical
    rw [System.logical_of_plain hplain] at hlogical
    simp only
    set lines := (s.inodes handle).lines ++ [line] with hlines
    set s' : System := { s with
      inodes := Function.update s.inodes handle
        { s.inodes handle with lines := lines, modified := now }
      appended := s.appended ++ [line] } with hs'
    have hnew : (s'.inodes handle).lines = lines := by
      rw [hs']
      simp only [Function.update_self]
    have hgrown : sizeOf (s.inodes handle).lines ≤ sizeOf lines := by
      rw [hlines, sizeOf_append]
      omega
    refine ⟨?_, ?_⟩
    · rw [(System.logical_of_plain hplain : s'.logical = _), hnew, hlines,
        Option.some.inj hlogical, List.append_assoc]
    · rcases h.worker with hidle | ⟨p, hsome, hholds⟩
      · exact .inl hidle
      · obtain rfl := Option.some.inj (hplain.symm.trans hsome)
        refine .inr ⟨handle, hplain, ?_⟩
        rw [hnew]
        change s.worker.Holds _ _
        exact hholds.grow hgrown ⟨[line], rfl⟩ hworker
  | _ => exact h

/-- **One operation** that finds what its call has seen keeps the rollout. -/
theorem step {event : Event} (hfresh : s.fresh creates event = true) :
    Intact original (s.step creates event) := by
  cases event with
  | worker now => exact h.workerStep hfresh
  | workerFails => exact h.idle
  | appender i now => exact h.appenderStep hfresh
  | appenderFails i => exact h.setAppender i .finished
  | append i line now => exact h.append hfresh

lemma run {events : List Event}
    (hfresh : s.allFresh creates events = true) : Intact original (s.run creates events) := by
  induction events generalizing s with
  | nil => exact h
  | cons event events ih =>
    rw [System.allFresh, Bool.and_eq_true] at hfresh
    exact ih (h.step hfresh.1) hfresh.2

end Intact

/-- **No appended line is lost**: in every run whose operations find what their calls have seen, the
rollout has its original lines and then every line that was appended, each once. -/
theorem appended_kept (creates : ℕ → Bool) {plain compressed : Option File}
    {original : List Bytes} (horiginal : (System.initial plain compressed).logical = some original)
    {events : List Event}
    (hfresh : (System.initial plain compressed).allFresh creates events = true) :
    ((System.initial plain compressed).run creates events).logical =
      some (original ++ ((System.initial plain compressed).run creates events).appended) := by
  have hinitial : Intact original (System.initial plain compressed) := by
    refine ⟨?_, .inl rfl⟩
    rw [horiginal]
    exact congrArg some (List.append_nil original).symm
  exact (hinitial.run hfresh).logical

/-! ### Two runs -/

/-- A cold rollout of one line. -/
def coldFile : File := ⟨[[104, 105]], 0, 420⟩

/-- Operations of the worker, a year after. -/
def workerOps (count : ℕ) : List Event := List.replicate count (.worker (365 * minRolloutAge))

/-- Operations of an appender. -/
def appenderOps (count : ℕ) : List Event := List.replicate count (.appender 0 (365 * minRolloutAge))

/-- The rollout is compressed, put back and appended to. -/
theorem appended_kept_coldFile :
    ((System.initial (some coldFile) none).run (fun _ => false)
      (workerOps 8 ++ appenderOps 8 ++ [.append 0 [111, 107] 0])).logical =
      some ([[104, 105]] ++ [[111, 107]]) := by
  have horiginal : (System.initial (some coldFile) none).logical = some [[104, 105]] := rfl
  have hfresh : (System.initial (some coldFile) none).allFresh (fun _ => false)
      (workerOps 8 ++ appenderOps 8 ++ [.append 0 [111, 107] 0]) = true := rfl
  exact appended_kept (fun _ => false) horiginal hfresh

/-- **A line that is appended after the worker's last look** goes with the plain file. -/
theorem appended_kept_fails :
    let s := (System.initial (some coldFile) none).run (fun _ => false)
      (appenderOps 2 ++ workerOps 7 ++ [.append 0 [111, 107] 0] ++ workerOps 1)
    s.logical = some [[104, 105]] ∧ s.appended = [[111, 107]] :=
  ⟨rfl, rfl⟩

end Codex.Rollout
