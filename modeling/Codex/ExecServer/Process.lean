import Codex.Lib.Text
import Codex.Lib.Numbered

/-!
# A process of the exec server

`exec-server/src/local_process.rs`: two tasks stream the output of a process, a third waits for its
exit, and whichever is last emits the close. Every event takes the next sequence number under the
lock of the process; output is kept up to a limit and the oldest goes first.

The log is what `events.publish` was called with, from the start of the process. A sequence number
is a `u64`, so that nothing is emitted after the last one.
-/

namespace Codex.ExecServer

open Codex.Lib

/-! ### Events -/

/-- `u64::MAX` -/
def u64Max : ℕ := 2 ^ 64 - 1

/-- `usize::MAX` -/
def usizeMax : ℕ := 2 ^ 64 - 1

inductive ExecOutputStream where
  | stdout
  | stderr
  | pty
  deriving DecidableEq

/-- `ProcessOutputChunk` and `RetainedOutputChunk` -/
structure ProcessOutputChunk where
  seq : ℕ
  stream : ExecOutputStream
  chunk : List UInt8
  deriving DecidableEq

inductive ExecProcessEvent where
  | output (chunk : ProcessOutputChunk)
  | exited (seq : ℕ) (exitCode : ℤ)
  | closed (seq : ℕ)
  | failed (message : Text)

def ExecProcessEvent.seq : ExecProcessEvent → Option ℕ
  | .output chunk => some chunk.seq
  | .exited seq _ => some seq
  | .closed seq => some seq
  | .failed _ => none

/-- `matches!(event, ExecProcessEvent::Exited { .. })` -/
def ExecProcessEvent.isExited : ExecProcessEvent → Bool
  | .exited _ _ => true
  | _ => false

/-- `matches!(event, ExecProcessEvent::Closed { .. })` -/
def ExecProcessEvent.isClosed : ExecProcessEvent → Bool
  | .closed _ => true
  | _ => false

/-! ### The process -/

def retainedOutputBytesPerProcess : ℕ := 1024 * 1024

/-- `RunningProcess`, the fields of its output and its end, with the log -/
structure RunningProcess where
  output : List ProcessOutputChunk
  retainedBytes : ℕ
  nextSeq : ℕ
  exitCode : Option ℤ
  openStreams : ℕ
  closed : Bool
  sandboxDenied : Bool
  log : List ExecProcessEvent

structure ReadResponse where
  chunks : List ProcessOutputChunk
  nextSeq : ℕ
  exited : Bool
  exitCode : Option ℤ
  closed : Bool
  failure : Option Text
  sandboxDenied : Bool
  deriving DecidableEq

namespace RunningProcess

/-- `start_process`, the new entry -/
def new : RunningProcess := ⟨[], 0, 1, none, 2, false, false, []⟩

/-- The `while` of `stream_output` -/
def evict : List ProcessOutputChunk → ℕ → List ProcessOutputChunk × ℕ
  | [], retainedBytes => ([], retainedBytes)
  | evicted :: rest, retainedBytes =>
    if retainedBytes > retainedOutputBytesPerProcess then
      evict rest (retainedBytes - evicted.chunk.length)
    else (evicted :: rest, retainedBytes)

variable (process : RunningProcess)

/-- `stream_output`, the section under the lock -/
def streamOutput (stream : ExecOutputStream) (chunk : List UInt8) : RunningProcess :=
  let seq := process.nextSeq
  let (output, retainedBytes) :=
    evict (process.output ++ [⟨seq, stream, chunk⟩]) (process.retainedBytes + chunk.length)
  { process with
    nextSeq := seq + 1
    output := output
    retainedBytes := retainedBytes
    log := process.log ++ [.output ⟨seq, stream, chunk⟩] }

/-- `watch_exit`, the section under the lock; the verdict on the sandbox is an argument -/
def watchExit (exitCode : ℤ) (sandboxDenied : Bool) : RunningProcess :=
  { process with
    nextSeq := process.nextSeq + 1
    exitCode := some exitCode
    sandboxDenied := sandboxDenied
    log := process.log ++ [.exited process.nextSeq exitCode] }

/-- `finish_output_stream`, the section under the lock -/
def finishOutputStream : RunningProcess :=
  { process with openStreams := process.openStreams - 1 }

/-- `maybe_emit_closed`, the section under the lock -/
def maybeEmitClosed : RunningProcess :=
  if process.closed ∨ process.openStreams ≠ 0 ∨ process.exitCode = none then process
  else
    { process with
      closed := true
      nextSeq := process.nextSeq + 1
      log := process.log ++ [.closed process.nextSeq] }

/-- What happens to a process. -/
inductive Action where
  | output (stream : ExecOutputStream) (chunk : List UInt8)
  | exit (exitCode : ℤ) (sandboxDenied : Bool)
  | finishStream
  | emitClosed

/-- A section under the lock. Output comes while a stream is open, and the process exits once. -/
def step : Action → RunningProcess
  | .output stream chunk =>
    if 0 < process.openStreams ∧ process.nextSeq < u64Max then process.streamOutput stream chunk
    else process
  | .exit exitCode sandboxDenied =>
    if process.exitCode = none ∧ process.nextSeq < u64Max then
      process.watchExit exitCode sandboxDenied
    else process
  | .finishStream => process.finishOutputStream
  | .emitClosed => if process.nextSeq < u64Max then process.maybeEmitClosed else process

/-! ### Reading -/

/-- `exec_read`, the loop over the retained output: the chunks, and the number after them -/
def readChunks (maxBytes : ℕ) :
    List ProcessOutputChunk → List ProcessOutputChunk → ℕ → ℕ → List ProcessOutputChunk × ℕ
  | [], chunks, _, nextSeq => (chunks, nextSeq)
  | retained :: rest, chunks, totalBytes, nextSeq =>
    if chunks ≠ [] ∧ totalBytes + retained.chunk.length > maxBytes then (chunks, nextSeq)
    else if totalBytes + retained.chunk.length ≥ maxBytes then
      (chunks ++ [retained], retained.seq + 1)
    else
      readChunks maxBytes rest (chunks ++ [retained]) (totalBytes + retained.chunk.length)
        (retained.seq + 1)

/-- `exec_read`, the response of one round -/
def execRead (afterSeq maxBytes : Option ℕ) : ReadResponse :=
  let (chunks, nextSeq) :=
    readChunks (maxBytes.getD usizeMax)
      (process.output.filter fun chunk => chunk.seq > afterSeq.getD 0) [] 0 process.nextSeq
  { chunks := chunks
    nextSeq := if maxBytes = none then process.nextSeq else nextSeq
    exited := process.exitCode.isSome
    exitCode := process.exitCode
    closed := process.closed
    failure := none
    sandboxDenied := process.sandboxDenied }

end RunningProcess

/-! ### The state and the log -/

/-- The process has emitted what its log holds. -/
structure Emitted (process : RunningProcess) : Prop where
  nextSeq : process.nextSeq = process.log.length + 1
  bound : process.nextSeq ≤ u64Max
  numbered : ∀ seq event, At process.log seq event → event.seq = some seq
  retained : ∀ chunk ∈ process.output, At process.log chunk.seq (.output chunk)
  exited : ∀ exitCode, process.exitCode = some exitCode →
    ∃ seq, At process.log seq (.exited seq exitCode)
  closed : process.closed = true → At process.log process.log.length (.closed process.log.length)
  finished : process.closed = true → process.openStreams = 0 ∧ process.exitCode ≠ none

section emitted

variable {process : RunningProcess}

lemma Emitted.new : Emitted .new where
  nextSeq := rfl
  bound := by decide
  numbered := fun seq event h => absurd h.2 (by simp [RunningProcess.new])
  retained := fun chunk h => absurd h List.not_mem_nil
  exited := fun exitCode h => nomatch h
  closed := fun h => nomatch h
  finished := fun h => nomatch h

lemma mem_of_mem_evict {chunks : List ProcessOutputChunk} {retainedBytes : ℕ}
    {chunk : ProcessOutputChunk} (h : chunk ∈ (RunningProcess.evict chunks retainedBytes).1) :
    chunk ∈ chunks := by
  induction chunks generalizing retainedBytes with
  | nil => exact h
  | cons evicted rest ih =>
    unfold RunningProcess.evict at h
    split at h
    · exact List.mem_cons_of_mem _ (ih h)
    · exact h

variable (h : Emitted process)
include h

/-- The numbers of a log that grows by the next event. -/
theorem Emitted.numbered_append {event : ExecProcessEvent}
    (hseq : event.seq = some process.nextSeq) :
    ∀ seq other, At (process.log ++ [event]) seq other → other.seq = some seq := by
  intro seq other hat
  rcases at_of_append_singleton hat with hold | ⟨rfl, rfl⟩
  · exact h.numbered seq other hold
  · rw [hseq, h.nextSeq]

lemma Emitted.at_next (event : ExecProcessEvent) :
    At (process.log ++ [event]) process.nextSeq event := by
  rw [h.nextSeq]
  exact At.last process.log event

lemma Emitted.streamOutput (hopen : 0 < process.openStreams)
    (hroom : process.nextSeq < u64Max) (stream : ExecOutputStream) (chunk : List UInt8) :
    Emitted (process.streamOutput stream chunk) := by
  have hnot : process.closed ≠ true := by
    intro hclosed
    have hzero := (h.finished hclosed).1
    omega
  refine ⟨?_, hroom, h.numbered_append rfl, ?_, ?_, fun hclosed => absurd hclosed hnot,
    fun hclosed => absurd hclosed hnot⟩
  · simp [RunningProcess.streamOutput, h.nextSeq]
  · intro retained hretained
    rcases List.mem_append.mp (mem_of_mem_evict hretained) with hold | hnew
    · exact (h.retained retained hold).append _
    · obtain rfl := List.mem_singleton.mp hnew
      exact h.at_next _
  · intro exitCode hexit
    obtain ⟨seq, hat⟩ := h.exited exitCode hexit
    exact ⟨seq, hat.append _⟩

lemma Emitted.watchExit (hrunning : process.exitCode = none)
    (hroom : process.nextSeq < u64Max) (exitCode : ℤ) (sandboxDenied : Bool) :
    Emitted (process.watchExit exitCode sandboxDenied) := by
  have hnot : process.closed ≠ true := fun hclosed => (h.finished hclosed).2 hrunning
  refine ⟨?_, hroom, h.numbered_append rfl, ?_, ?_, fun hclosed => absurd hclosed hnot,
    fun hclosed => absurd hclosed hnot⟩
  · simp [RunningProcess.watchExit, h.nextSeq]
  · intro retained hretained
    exact (h.retained retained hretained).append _
  · intro code hcode
    cases hcode
    exact ⟨process.nextSeq, h.at_next _⟩

lemma Emitted.finishOutputStream : Emitted process.finishOutputStream := by
  refine ⟨h.nextSeq, h.bound, h.numbered, h.retained, h.exited, h.closed, ?_⟩
  intro hclosed
  obtain ⟨hzero, hexit⟩ := h.finished hclosed
  exact ⟨by simp [RunningProcess.finishOutputStream, hzero], hexit⟩

lemma Emitted.maybeEmitClosed (hroom : process.nextSeq < u64Max) :
    Emitted process.maybeEmitClosed := by
  unfold RunningProcess.maybeEmitClosed
  split_ifs with hnot
  · exact h
  · rw [not_or, not_or, not_not] at hnot
    have hlength : (process.log ++ [ExecProcessEvent.closed process.nextSeq]).length =
        process.nextSeq := by
      simp [h.nextSeq]
    refine ⟨?_, hroom, h.numbered_append rfl, ?_, ?_, ?_, fun _ => hnot.2⟩
    · simp only [hlength]
    · intro retained hretained
      exact (h.retained retained hretained).append _
    · intro exitCode hexit
      obtain ⟨seq, hat⟩ := h.exited exitCode hexit
      exact ⟨seq, hat.append _⟩
    · intro _
      simp only [hlength]
      exact h.at_next _

lemma Emitted.step (action : RunningProcess.Action) : Emitted (process.step action) := by
  cases action with
  | output stream chunk =>
    simp only [RunningProcess.step]
    split_ifs with hguard
    · exact h.streamOutput hguard.1 hguard.2 stream chunk
    · exact h
  | exit exitCode sandboxDenied =>
    simp only [RunningProcess.step]
    split_ifs with hguard
    · exact h.watchExit hguard.1 hguard.2 exitCode sandboxDenied
    · exact h
  | finishStream => exact h.finishOutputStream
  | emitClosed =>
    simp only [RunningProcess.step]
    split_ifs with hroom
    · exact h.maybeEmitClosed hroom
    · exact h

omit h

lemma prefix_log_step (process : RunningProcess) (action : RunningProcess.Action) :
    process.log <+: (process.step action).log := by
  cases action with
  | output stream chunk =>
    simp only [RunningProcess.step]
    split_ifs
    · exact List.prefix_append _ _
    · exact List.prefix_refl _
  | exit exitCode sandboxDenied =>
    simp only [RunningProcess.step]
    split_ifs
    · exact List.prefix_append _ _
    · exact List.prefix_refl _
  | finishStream => exact List.prefix_refl _
  | emitClosed =>
    simp only [RunningProcess.step, RunningProcess.maybeEmitClosed]
    split_ifs
    · exact List.prefix_refl _
    · exact List.prefix_append _ _
    · exact List.prefix_refl _

end emitted

/-! ### What a read says -/

/-- A response that was true of the log when it was read. -/
structure Truthful (log : List ExecProcessEvent) (response : ReadResponse) : Prop where
  numbers : 0 < response.nextSeq ∧ response.nextSeq ≤ log.length + 1 ∧ response.nextSeq ≤ u64Max
  chunks : ∀ chunk ∈ response.chunks, At log chunk.seq (.output chunk)
  exited : response.exited = true → ∃ seq exitCode, response.exitCode = some exitCode ∧
    seq < response.nextSeq ∧ At log seq (.exited seq exitCode)
  closed : response.closed = true → At log (response.nextSeq - 1) (.closed (response.nextSeq - 1))

section reads

variable {process : RunningProcess} {log : List ExecProcessEvent} {response : ReadResponse}

lemma mem_of_mem_readChunks {maxBytes : ℕ} {retained chunks : List ProcessOutputChunk}
    {totalBytes nextSeq : ℕ} {chunk : ProcessOutputChunk}
    (h : chunk ∈ (RunningProcess.readChunks maxBytes retained chunks totalBytes nextSeq).1) :
    chunk ∈ retained ∨ chunk ∈ chunks := by
  induction retained generalizing chunks totalBytes nextSeq with
  | nil => exact .inr h
  | cons first rest ih =>
    have hmove : chunk ∈ chunks ++ [first] → chunk ∈ first :: rest ∨ chunk ∈ chunks := by
      intro hmem
      rcases List.mem_append.mp hmem with hold | hnew
      · exact .inr hold
      · exact .inl (List.mem_singleton.mp hnew ▸ List.mem_cons_self)
    unfold RunningProcess.readChunks at h
    split_ifs at h
    · exact .inr h
    · exact hmove h
    · rcases ih h with hrest | hmem
      · exact .inl (List.mem_cons_of_mem _ hrest)
      · exact hmove hmem

lemma truthful_execRead (h : Emitted process) (afterSeq : Option ℕ) :
    Truthful process.log (process.execRead afterSeq none) := by
  refine ⟨⟨?_, ?_, h.bound⟩, ?_, ?_, ?_⟩
  · show 0 < process.nextSeq
    rw [h.nextSeq]
    exact Nat.succ_pos _
  · exact h.nextSeq.le
  · intro chunk hchunk
    rcases mem_of_mem_readChunks hchunk with hmem | hmem
    · exact h.retained chunk (List.mem_filter.mp hmem).1
    · cases hmem
  · intro hexited
    obtain ⟨exitCode, hcode⟩ := Option.isSome_iff_exists.mp hexited
    obtain ⟨seq, hat⟩ := h.exited exitCode hcode
    refine ⟨seq, exitCode, hcode, ?_, hat⟩
    have hle := hat.le_length
    have hnext := h.nextSeq
    show seq < process.nextSeq
    omega
  · intro hclosed
    have hnext : process.nextSeq - 1 = process.log.length := by
      rw [h.nextSeq, Nat.add_sub_cancel]
    show At process.log (process.nextSeq - 1) (.closed (process.nextSeq - 1))
    rw [hnext]
    exact h.closed hclosed

lemma Truthful.mono {later : List ExecProcessEvent} (h : Truthful log response)
    (hlater : log <+: later) : Truthful later response := by
  obtain ⟨rest, rfl⟩ := hlater
  obtain ⟨hpos, hlength, hmax⟩ := h.numbers
  refine ⟨⟨hpos, ?_, hmax⟩, ?_, ?_, ?_⟩
  · rw [List.length_append]
    omega
  · intro chunk hchunk
    exact (h.chunks chunk hchunk).append _
  · intro hexited
    obtain ⟨seq, exitCode, hcode, hlt, hat⟩ := h.exited hexited
    exact ⟨seq, exitCode, hcode, hlt, hat.append _⟩
  · intro hclosed
    exact (h.closed hclosed).append _

end reads

end Codex.ExecServer
