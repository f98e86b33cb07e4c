import Codex.ExecServer.Process
import Mathlib.Algebra.Order.BigOperators.Group.List

/-!
# Reading the output of a process page by page

`exec_read` returns the retained output after a sequence number, up to a limit of bytes, and the
number to go on with: after the last chunk that it returned, or after all events so far. A reader
that goes on with these numbers passes over nothing that is still retained.

* `PagedRead.page`: what one call returns;
* `paged_reads`: **pages are in order, without repetition, and lose only what was evicted**.
-/

namespace Codex.ExecServer

open Codex.Lib

/-! ### The retained output -/

/-- The size of chunks. -/
def totalLength (chunks : List ProcessOutputChunk) : ℕ := (chunks.map (·.chunk.length)).sum

/-- The retained output is in order, and no larger than allowed. -/
structure Retains (process : RunningProcess) : Prop where
  rising : process.output.Pairwise fun a b => a.seq < b.seq
  below : ∀ chunk ∈ process.output, chunk.seq < process.nextSeq
  bytes : totalLength process.output = process.retainedBytes
  limit : process.retainedBytes ≤ retainedOutputBytesPerProcess

section retains

variable {process : RunningProcess} {chunks : List ProcessOutputChunk} {retainedBytes : ℕ}

lemma evict_suffix (chunks : List ProcessOutputChunk) (retainedBytes : ℕ) :
    (RunningProcess.evict chunks retainedBytes).1 <:+ chunks := by
  induction chunks generalizing retainedBytes with
  | nil => exact List.suffix_refl _
  | cons evicted rest ih =>
    unfold RunningProcess.evict
    split_ifs
    · exact (ih _).trans (List.suffix_cons _ _)
    · exact List.suffix_refl _

lemma totalLength_evict (h : totalLength chunks = retainedBytes) :
    totalLength (RunningProcess.evict chunks retainedBytes).1 =
        (RunningProcess.evict chunks retainedBytes).2 ∧
      (RunningProcess.evict chunks retainedBytes).2 ≤ retainedOutputBytesPerProcess := by
  induction chunks generalizing retainedBytes with
  | nil =>
    rw [RunningProcess.evict]
    refine ⟨h, ?_⟩
    rw [← h]
    exact Nat.zero_le _
  | cons evicted rest ih =>
    unfold RunningProcess.evict
    split_ifs with hfull
    · apply ih
      rw [← h, totalLength, totalLength, List.map_cons, List.sum_cons, Nat.add_sub_cancel_left]
    · exact ⟨h, not_lt.mp hfull⟩

lemma Retains.new : Retains .new where
  rising := List.Pairwise.nil
  below _ h := absurd h List.not_mem_nil
  bytes := rfl
  limit := Nat.zero_le _

variable (h : Retains process)
include h

lemma Retains.streamOutput (stream : ExecOutputStream)
    (chunk : List UInt8) : Retains (process.streamOutput stream chunk) := by
  have hbytes : totalLength (process.output ++ [⟨process.nextSeq, stream, chunk⟩]) =
      process.retainedBytes + chunk.length := by
    rw [← h.bytes, totalLength, totalLength, List.map_append, List.sum_append]
    rfl
  have hsuffix := evict_suffix (process.output ++ [⟨process.nextSeq, stream, chunk⟩])
    (process.retainedBytes + chunk.length)
  obtain ⟨htotal, hlimit⟩ := totalLength_evict hbytes
  refine ⟨?_, ?_, htotal, hlimit⟩
  · refine List.Pairwise.sublist hsuffix.sublist (List.pairwise_append.mpr ⟨h.rising, ?_, ?_⟩)
    · exact List.pairwise_singleton _ _
    · intro a ha b hb
      rw [List.mem_singleton.mp hb]
      exact h.below a ha
  · intro retained hretained
    show retained.seq < process.nextSeq + 1
    rcases List.mem_append.mp (hsuffix.subset hretained) with hold | hnew
    · exact (h.below retained hold).trans (Nat.lt_succ_self _)
    · rw [List.mem_singleton.mp hnew]
      exact Nat.lt_succ_self _

lemma Retains.of_output_eq {later : RunningProcess}
    (houtput : later.output = process.output) (hbytes : later.retainedBytes = process.retainedBytes)
    (hnext : process.nextSeq ≤ later.nextSeq) : Retains later where
  rising := houtput ▸ h.rising
  below chunk hchunk := (h.below chunk (houtput ▸ hchunk)).trans_le hnext
  bytes := by rw [houtput, hbytes, h.bytes]
  limit := hbytes ▸ h.limit

lemma Retains.step (action : RunningProcess.Action) : Retains (process.step action) := by
  cases action with
  | output stream chunk =>
    simp only [RunningProcess.step]
    split_ifs
    · exact h.streamOutput stream chunk
    · exact h
  | exit exitCode sandboxDenied =>
    simp only [RunningProcess.step]
    split_ifs
    · exact h.of_output_eq rfl rfl (Nat.le_succ _)
    · exact h
  | finishStream => exact h.of_output_eq rfl rfl le_rfl
  | emitClosed =>
    simp only [RunningProcess.step, RunningProcess.maybeEmitClosed]
    split_ifs
    · exact h
    · exact h.of_output_eq rfl rfl (Nat.le_succ _)
    · exact h

end retains

/-! ### One read -/

section read

variable {process : RunningProcess} {chunks retained : List ProcessOutputChunk}
  {maxBytes totalBytes nextSeq : ℕ}

/-- The loop returns some of the first chunks, at least one if it has none yet, and the number after
the last of them. -/
theorem readChunks_eq (maxBytes : ℕ) (retained chunks : List ProcessOutputChunk)
    (totalBytes nextSeq : ℕ) :
    ∃ count, RunningProcess.readChunks maxBytes retained chunks totalBytes nextSeq =
        (chunks ++ retained.take count,
          ((retained.take count).getLast?.map (·.seq + 1)).getD nextSeq) ∧
      (chunks = [] → retained ≠ [] → retained.take count ≠ []) := by
  induction retained generalizing chunks totalBytes nextSeq with
  | nil => exact ⟨0, by rw [RunningProcess.readChunks]; simp, fun _ hne => absurd rfl hne⟩
  | cons first rest ih =>
    unfold RunningProcess.readChunks
    split_ifs with hfull hlast
    · exact ⟨0, by simp, fun hnil => absurd hnil hfull.1⟩
    · exact ⟨1, by simp, fun _ _ => by simp⟩
    · obtain ⟨count, hread, -⟩ :=
        ih (chunks ++ [first]) (totalBytes + first.chunk.length) (first.seq + 1)
      refine ⟨count + 1, ?_, fun _ _ => by simp⟩
      rw [hread, List.take_succ_cons, List.append_assoc, List.singleton_append]
      congr 1
      cases hrest : (rest.take count).getLast? with
      | none =>
        rw [List.getLast?_eq_none_iff.mp hrest]
        rfl
      | some last =>
        rw [List.getLast?_cons, hrest]
        rfl

/-- Without a limit that matters, all chunks are returned. -/
theorem readChunks_all (h : totalBytes + totalLength retained < maxBytes) :
    (RunningProcess.readChunks maxBytes retained chunks totalBytes nextSeq).1 =
      chunks ++ retained := by
  induction retained generalizing chunks totalBytes nextSeq with
  | nil => rw [RunningProcess.readChunks, List.append_nil]
  | cons first rest ih =>
    rw [totalLength, List.map_cons, List.sum_cons] at h
    rw [RunningProcess.readChunks, if_neg (fun hfull => by omega), if_neg (by omega), ih]
    · rw [List.append_assoc, List.singleton_append]
    · rw [totalLength]
      omega

end read

/-! ### Pages -/

/-- One call of `exec_read`: the process it finds in its last round, and its parameters. -/
structure PagedRead where
  process : RunningProcess
  afterSeq : Option ℕ
  maxBytes : Option ℕ

/-- `let after_seq = params.after_seq.unwrap_or(0)` -/
def PagedRead.after (read : PagedRead) : ℕ := read.afterSeq.getD 0

def PagedRead.response (read : PagedRead) : ReadResponse :=
  read.process.execRead read.afterSeq read.maxBytes

/-- The retained output that is new to the reader. -/
def PagedRead.unread (read : PagedRead) : List ProcessOutputChunk :=
  read.process.output.filter fun chunk => chunk.seq > read.after

/-- A page begins where the reader was, misses no retained chunk before its `next_seq`, and is not
empty if there is something to read. -/
structure Page (read : PagedRead) : Prop where
  rising : read.response.chunks.Pairwise fun a b => a.seq < b.seq
  new : ∀ chunk ∈ read.response.chunks, read.after < chunk.seq
  before : ∀ chunk ∈ read.response.chunks, chunk.seq < read.response.nextSeq
  full : ∀ chunk ∈ read.process.output, read.after < chunk.seq →
    chunk.seq < read.response.nextSeq → chunk ∈ read.response.chunks
  nextSeq : read.response.nextSeq ≤ read.process.nextSeq
  forward : read.after < read.process.nextSeq → read.after < read.response.nextSeq
  nonempty : ∀ chunk ∈ read.process.output, read.after < chunk.seq → read.response.chunks ≠ []

section page

variable {read : PagedRead}

lemma PagedRead.mem_unread {chunk : ProcessOutputChunk} :
    chunk ∈ read.unread ↔ chunk ∈ read.process.output ∧ read.after < chunk.seq := by
  simp [PagedRead.unread]

/-- A response either has all that is unread and goes on after all events, or it goes on after its
last chunk. -/
theorem PagedRead.response_cases (h : Retains read.process) :
    (read.response.chunks = read.unread ∧ read.response.nextSeq = read.process.nextSeq) ∨
      ∃ init last rest, read.unread = init ++ last :: rest ∧
        read.response.chunks = init ++ [last] ∧ read.response.nextSeq = last.seq + 1 := by
  obtain ⟨count, hread, hsome⟩ :=
    readChunks_eq (read.maxBytes.getD usizeMax) read.unread [] 0 read.process.nextSeq
  have hchunks : read.response.chunks =
      (RunningProcess.readChunks (read.maxBytes.getD usizeMax) read.unread [] 0
        read.process.nextSeq).1 := rfl
  cases hmax : read.maxBytes with
  | none =>
    have hsize : totalLength read.unread < usizeMax := by
      have hle : totalLength read.unread ≤ totalLength read.process.output :=
        List.Sublist.sum_le_sum (List.filter_sublist.map _) fun _ _ => Nat.zero_le _
      have hlimit := h.limit
      rw [h.bytes] at hle
      exact (hle.trans hlimit).trans_lt (by decide)
    refine .inl ⟨?_, ?_⟩
    · rw [hchunks, hmax, Option.getD_none, readChunks_all (by omega), List.nil_append]
    · simp [PagedRead.response, RunningProcess.execRead, hmax]
  | some maxBytes =>
    rw [hread, List.nil_append] at hchunks
    have hnext : read.response.nextSeq =
        ((read.unread.take count).getLast?.map (·.seq + 1)).getD read.process.nextSeq := by
      have hsnd : read.response.nextSeq =
          (RunningProcess.readChunks (read.maxBytes.getD usizeMax) read.unread [] 0
            read.process.nextSeq).2 := by
        simp [PagedRead.response, RunningProcess.execRead, hmax, PagedRead.unread, PagedRead.after]
      rw [hsnd, hread]
    rcases List.eq_nil_or_concat (read.unread.take count) with hnil | ⟨init, last, hlast⟩
    · have hunread : read.unread = [] := by
        by_contra hne
        exact hsome rfl hne hnil
      rw [hnil] at hchunks hnext
      exact .inl ⟨hchunks.trans hunread.symm, hnext⟩
    · rw [List.concat_eq_append] at hlast
      rw [hlast] at hchunks hnext
      refine .inr ⟨init, last, read.unread.drop count, ?_, hchunks, ?_⟩
      · rw [List.append_cons, ← hlast, List.take_append_drop]
      · rw [hnext, List.getLast?_concat]
        rfl

lemma PagedRead.page (h : Retains read.process) : Page read := by
  have hrising : read.unread.Pairwise fun a b => a.seq < b.seq := h.rising.filter _
  rcases PagedRead.response_cases h with
    ⟨hchunks, hnext⟩ | ⟨init, last, rest, hunread, hchunks, hnext⟩
  · constructor
    · rwa [hchunks]
    · intro chunk hchunk
      rw [hchunks] at hchunk
      exact (PagedRead.mem_unread.mp hchunk).2
    · intro chunk hchunk
      rw [hchunks] at hchunk
      rw [hnext]
      exact h.below chunk (PagedRead.mem_unread.mp hchunk).1
    · intro chunk hchunk hafter _
      rw [hchunks]
      exact PagedRead.mem_unread.mpr ⟨hchunk, hafter⟩
    · exact hnext.le
    · intro hafter
      rwa [hnext]
    · intro chunk hchunk hafter hnil
      have hmem := PagedRead.mem_unread.mpr ⟨hchunk, hafter⟩
      rw [← hchunks, hnil] at hmem
      exact List.not_mem_nil hmem
  · have hlast : last ∈ read.unread := by simp [hunread]
    have hsub : ∀ chunk ∈ init ++ [last], chunk ∈ read.unread := by
      intro chunk hchunk
      rw [hunread, List.append_cons]
      exact List.mem_append_left _ hchunk
    rw [hunread, List.append_cons, List.pairwise_append] at hrising
    obtain ⟨hpage, -, hrest⟩ := hrising
    constructor
    · rwa [hchunks]
    · intro chunk hchunk
      rw [hchunks] at hchunk
      exact (PagedRead.mem_unread.mp (hsub chunk hchunk)).2
    · intro chunk hchunk
      rw [hchunks] at hchunk
      rw [hnext]
      rcases List.mem_append.mp hchunk with hinit | hone
      · exact ((List.pairwise_append.mp hpage).2.2 chunk hinit last List.mem_cons_self).trans
          (Nat.lt_succ_self _)
      · rw [List.mem_singleton.mp hone]
        exact Nat.lt_succ_self _
    · intro chunk hchunk hafter hbefore
      have hmem := PagedRead.mem_unread.mpr ⟨hchunk, hafter⟩
      rw [hunread, List.append_cons] at hmem
      rw [hchunks]
      rcases List.mem_append.mp hmem with hin | hin
      · exact hin
      · -- what lies behind the last chunk of the page has a larger number
        have hlt := hrest last (by simp) chunk hin
        rw [hnext] at hbefore
        omega
    · rw [hnext]
      exact h.below last (PagedRead.mem_unread.mp hlast).1
    · intro _
      rw [hnext]
      exact (PagedRead.mem_unread.mp hlast).2.trans (Nat.lt_succ_self _)
    · intro _ _ _
      rw [hchunks]
      exact List.append_ne_nil_of_right_ne_nil _ (List.cons_ne_nil _ _)

end page

/-! ### Page by page -/

/-- A process and a reader of it, with the reads so far. -/
structure Pager where
  process : RunningProcess
  afterSeq : Option ℕ
  reads : List PagedRead

/-- What happens: the process goes on, or the reader reads. -/
inductive PagerEvent where
  | act (action : RunningProcess.Action)
  | read (maxBytes : Option ℕ)

namespace Pager

/-- A reader that begins after any number. -/
def start (afterSeq : Option ℕ) : Pager := ⟨.new, afterSeq, []⟩

/-- A reader goes on from `next_seq - 1`. -/
def step (pager : Pager) : PagerEvent → Pager
  | .act action => { pager with process := pager.process.step action }
  | .read maxBytes =>
    let read : PagedRead := ⟨pager.process, pager.afterSeq, maxBytes⟩
    { pager with
      afterSeq := some (read.response.nextSeq - 1)
      reads := pager.reads ++ [read] }

def run (pager : Pager) (events : List PagerEvent) : Pager := events.foldl step pager

/-- All chunks that the reader got. -/
def returned (pager : Pager) : List ProcessOutputChunk :=
  pager.reads.flatMap fun read => read.response.chunks

end Pager

/-- What a reader has seen: pages, of this process, in order and without a gap between them. -/
structure Paged (pager : Pager) : Prop where
  emitted : Emitted pager.process
  retains : Retains pager.process
  pages : ∀ read ∈ pager.reads,
    Page read ∧ Emitted read.process ∧ read.process.log <+: pager.process.log
  behind : pager.reads ≠ [] → pager.afterSeq.getD 0 < pager.process.nextSeq
  rising : pager.returned.Pairwise fun a b => a.seq < b.seq
  seen : ∀ chunk ∈ pager.returned, chunk.seq ≤ pager.afterSeq.getD 0
  passed : ∀ chunk ∈ pager.returned, ∀ seq, chunk.seq < seq → seq ≤ pager.afterSeq.getD 0 →
    ∃ read ∈ pager.reads, read.after < seq ∧ seq < read.response.nextSeq

section paged

variable {pager : Pager}

lemma Paged.start (afterSeq : Option ℕ) : Paged (.start afterSeq) where
  emitted := Emitted.new
  retains := Retains.new
  pages _ h := absurd h List.not_mem_nil
  behind h := absurd rfl h
  rising := List.Pairwise.nil
  seen _ h := absurd h List.not_mem_nil
  passed _ h := absurd h List.not_mem_nil

/-- A process that goes on changes nothing of what was read. -/
theorem Paged.act (h : Paged pager) (action : RunningProcess.Action) :
    Paged (pager.step (.act action)) := by
  have hprefix := prefix_log_step pager.process action
  have hemitted := h.emitted.step action
  refine ⟨hemitted, h.retains.step action, ?_, ?_, h.rising, h.seen, h.passed⟩
  · intro read hread
    obtain ⟨hpage, hthen, hlog⟩ := h.pages read hread
    exact ⟨hpage, hthen, hlog.trans hprefix⟩
  · intro hreads
    have hlt : pager.afterSeq.getD 0 < pager.process.nextSeq := h.behind hreads
    have hlength := hprefix.length_le
    rw [h.emitted.nextSeq] at hlt
    show pager.afterSeq.getD 0 < (pager.process.step action).nextSeq
    rw [hemitted.nextSeq]
    omega

/-- A read: its page begins behind everything seen, and the reader goes on at its end. -/
theorem Paged.read (h : Paged pager) (maxBytes : Option ℕ) :
    Paged (pager.step (.read maxBytes)) := by
  let read : PagedRead := ⟨pager.process, pager.afterSeq, maxBytes⟩
  have hpage : Page read := PagedRead.page h.retains
  have hreturned : (pager.step (.read maxBytes)).returned =
      pager.returned ++ read.response.chunks := by
    simp [Pager.returned, Pager.step, read]
  have hafter : (pager.step (.read maxBytes)).afterSeq.getD 0 = read.response.nextSeq - 1 := rfl
  have hreads : (pager.step (.read maxBytes)).reads = pager.reads ++ [read] := rfl
  -- once something was read, a reader only moves forward
  have hforward : pager.returned ≠ [] → pager.afterSeq.getD 0 < read.response.nextSeq := by
    intro hne
    apply hpage.forward
    apply h.behind
    intro hnil
    apply hne
    rw [Pager.returned, hnil, List.flatMap_nil]
  have hsplit : ∀ chunk ∈ (pager.step (.read maxBytes)).returned,
      (chunk ∈ pager.returned ∧ chunk.seq ≤ pager.afterSeq.getD 0 ∧
          pager.afterSeq.getD 0 < read.response.nextSeq) ∨
        (chunk ∈ read.response.chunks ∧ pager.afterSeq.getD 0 < chunk.seq ∧
          chunk.seq < read.response.nextSeq) := by
    intro chunk hchunk
    rw [hreturned] at hchunk
    rcases List.mem_append.mp hchunk with hold | hnew
    · exact .inl ⟨hold, h.seen chunk hold, hforward (List.ne_nil_of_mem hold)⟩
    · exact .inr ⟨hnew, hpage.new chunk hnew, hpage.before chunk hnew⟩
  refine ⟨h.emitted, h.retains, ?_, ?_, ?_, ?_, ?_⟩
  · intro other hother
    rw [hreads] at hother
    rcases List.mem_append.mp hother with hold | hnew
    · exact h.pages other hold
    · obtain rfl := List.mem_singleton.mp hnew
      exact ⟨hpage, h.emitted, List.prefix_refl _⟩
  · intro _
    have hle : read.response.nextSeq ≤ pager.process.nextSeq := hpage.nextSeq
    have hpos : 0 < pager.process.nextSeq := by
      rw [h.emitted.nextSeq]
      exact Nat.succ_pos _
    rw [hafter]
    show read.response.nextSeq - 1 < pager.process.nextSeq
    omega
  · rw [hreturned, List.pairwise_append]
    refine ⟨h.rising, hpage.rising, ?_⟩
    intro old hold new hnew
    exact (h.seen old hold).trans_lt (hpage.new new hnew)
  · intro chunk hchunk
    rw [hafter]
    rcases hsplit chunk hchunk with ⟨-, hseen, hlt⟩ | ⟨-, -, hlt⟩ <;> omega
  · intro chunk hchunk seq hlt hle
    rw [hafter] at hle
    rw [hreads]
    by_cases hpast : seq ≤ pager.afterSeq.getD 0
    · -- the number was passed earlier, and so was the chunk returned earlier
      rcases hsplit chunk hchunk with ⟨hold, -, -⟩ | ⟨-, hnew, -⟩
      · obtain ⟨earlier, hearlier, hwindow⟩ := h.passed chunk hold seq hlt hpast
        exact ⟨earlier, List.mem_append_left _ hearlier, hwindow⟩
      · omega
    · refine ⟨read, List.mem_append_right _ (List.mem_singleton_self _), ?_, ?_⟩
      · exact Nat.lt_of_not_le hpast
      · omega

lemma Paged.step (h : Paged pager) (event : PagerEvent) : Paged (pager.step event) := by
  cases event with
  | act action => exact h.act action
  | read maxBytes => exact h.read maxBytes

lemma Paged.run (h : Paged pager) (events : List PagerEvent) : Paged (pager.run events) := by
  induction events generalizing pager with
  | nil => exact h
  | cons event events ih => exact ih (h.step event)

/-- **Pages are in order, without repetition, and lose only what was evicted.** What a reader gets
is strictly increasing; an output between two chunks that it got was either returned too or no
longer retained by the read that passed it; and a read returns something if there is something. -/
theorem paged_reads (afterSeq : Option ℕ) (events : List PagerEvent) :
    let pager := (Pager.start afterSeq).run events
    (pager.returned.Pairwise fun a b => a.seq < b.seq) ∧
      (∀ chunk, At pager.process.log chunk.seq (.output chunk) →
        ∀ earlier ∈ pager.returned, ∀ later ∈ pager.returned, earlier.seq < chunk.seq →
          chunk.seq < later.seq → chunk ∉ pager.returned →
          ∃ read ∈ pager.reads, read.after < chunk.seq ∧ chunk.seq < read.response.nextSeq ∧
            At read.process.log chunk.seq (.output chunk) ∧ chunk ∉ read.process.output) ∧
      ∀ read ∈ pager.reads, (∃ chunk ∈ read.process.output, read.after < chunk.seq) →
        read.response.chunks ≠ [] := by
  intro pager
  have h : Paged pager := (Paged.start afterSeq).run events
  refine ⟨h.rising, ?_, ?_⟩
  · intro chunk hat earlier hearlier later hlater hafter hbefore hnot
    have hle := h.seen later hlater
    obtain ⟨read, hread, hwindow, hlt⟩ := h.passed earlier hearlier chunk.seq hafter (by omega)
    obtain ⟨hpage, hemitted, hprefix⟩ := h.pages read hread
    refine ⟨read, hread, hwindow, hlt, ?_, ?_⟩
    · -- the chunk has a number that the log of the read already reached
      have hnext := hpage.nextSeq
      rw [hemitted.nextSeq] at hnext
      obtain ⟨event, hevent⟩ := exists_at hat.1 (show chunk.seq ≤ read.process.log.length by omega)
      obtain ⟨rest, hrest⟩ := hprefix
      have hlog : At pager.process.log chunk.seq event := hrest ▸ hevent.append rest
      rwa [hlog.unique hat] at hevent
    · intro hretained
      apply hnot
      exact List.mem_flatMap.mpr ⟨read, hread, hpage.full chunk hretained hwindow hlt⟩
  · intro read hread ⟨chunk, hchunk, hafter⟩
    exact (h.pages read hread).1.nonempty chunk hchunk hafter

end paged

end Codex.ExecServer
