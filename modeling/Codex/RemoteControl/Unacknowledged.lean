import Codex.RemoteControl.WebsocketState

/-!
# Envelopes are kept until they are acknowledged

In every run the outbound buffer of a stream holds what the log says is not acknowledged, in the
order of sending, and the counter is the number of envelopes in all buffers. The cursors of a stream
rise as long as its sequence numbers do: `saturating_add` gives the last number again and again.

* `unacked_append_sent`, `unacked_append_acked`: what a log entry does to what is not acknowledged;
* `Retained.insertAll`, `Retained.ack`: the buffers and their counter;
* `cursors_repeat`: a run that is too long.
-/

namespace Codex.RemoteControl

open Codex.Lib

/-! ### What is not acknowledged -/

/-- An acknowledgement covers what has a smaller number, and of its own number the segments up to
its segment, or all. -/
def Covers (seqId : ℕ) (segmentId : Option ℕ) (envelope : ServerEnvelope) : Prop :=
  envelope.seqId < seqId ∨
    envelope.seqId = seqId ∧ segmentId.all fun segment => envelope.segment ≤ segment

instance (seqId : ℕ) (segmentId : Option ℕ) : DecidablePred (Covers seqId segmentId) :=
  fun envelope => by unfold Covers; infer_instance

/-- The entry is an acknowledgement for the stream of the envelope and covers it. -/
def LogEntry.Covers : LogEntry → ServerEnvelope → Prop
  | .sent _, _ => False
  | .acked key seqId segmentId, envelope =>
    key = envelope.key ∧ RemoteControl.Covers seqId segmentId envelope

instance (envelope : ServerEnvelope) : DecidablePred (LogEntry.Covers · envelope) := by
  intro entry
  cases entry <;> unfold LogEntry.Covers <;> infer_instance

/-- The envelopes that were sent on the stream and that nothing later in the log covers. -/
def unacked (key : ClientKey) : List LogEntry → List ServerEnvelope
  | [] => []
  | .sent envelope :: rest =>
    if envelope.key = key ∧ ∀ entry ∈ rest, ¬ entry.Covers envelope then
      envelope :: unacked key rest
    else unacked key rest
  | .acked _ _ _ :: rest => unacked key rest

/-- The envelopes that were sent on the stream. -/
def sentOn (key : ClientKey) (log : List LogEntry) : List ServerEnvelope :=
  log.filterMap fun
    | .sent envelope => if envelope.key = key then some envelope else none
    | .acked _ _ _ => none

section unacked

variable {key : ClientKey} {log : List LogEntry} {envelope : ServerEnvelope}

/-- A segment number is at most `usize::MAX`, so that an acknowledgement without one covers all. -/
theorem cursor_le_iff (seqId : ℕ) (segmentId : Option ℕ) (envelope : ServerEnvelope) :
    envelope.cursor ≤ toLex (seqId, segmentId.getD usizeMax) ↔ Covers seqId segmentId envelope := by
  have hsegment : envelope.segment ≤ usizeMax := by
    unfold ServerEnvelope.segment
    cases envelope.event.segmentId with
    | none => exact Nat.zero_le _
    | some segment => exact Nat.le_of_lt_succ segment.isLt
  unfold ServerEnvelope.cursor Covers
  rw [Prod.Lex.toLex_le_toLex]
  cases segmentId with
  | none => simp [hsegment]
  | some segment => simp

lemma key_of_mem_unacked (h : envelope ∈ unacked key log) : envelope.key = key := by
  induction log with
  | nil => cases h
  | cons entry log ih =>
    cases entry with
    | acked key' seqId segmentId => exact ih h
    | sent first =>
      unfold unacked at h
      split at h
      · rename_i hfirst
        rcases List.mem_cons.mp h with rfl | h
        · exact hfirst.1
        · exact ih h
      · exact ih h

variable (key)

/-- A new entry takes away what it covers and adds what it is. -/
theorem unacked_append (log : List LogEntry) (entry : LogEntry) :
    unacked key (log ++ [entry]) =
      (unacked key log).filter (fun envelope => ¬ entry.Covers envelope) ++
        unacked key [entry] := by
  induction log with
  | nil => rfl
  | cons first log ih =>
    cases first with
    | acked key' seqId segmentId => exact ih
    | sent first =>
      have hsplit : (first.key = key ∧ ∀ e ∈ log ++ [entry], ¬ e.Covers first) ↔
          (first.key = key ∧ ∀ e ∈ log, ¬ e.Covers first) ∧ ¬ entry.Covers first := by
        rw [List.forall_mem_append, List.forall_mem_singleton, and_assoc]
      rw [List.cons_append, unacked, unacked, ih]
      by_cases hkept : first.key = key ∧ ∀ e ∈ log, ¬ e.Covers first
      · by_cases hcovers : entry.Covers first
        · rw [if_neg fun h => (hsplit.mp h).2 hcovers, if_pos hkept, List.filter_cons,
            if_neg (by simpa using hcovers)]
        · rw [if_pos (hsplit.mpr ⟨hkept, hcovers⟩), if_pos hkept, List.filter_cons,
            if_pos (by simpa using hcovers), List.cons_append]
      · rw [if_neg fun h => hkept (hsplit.mp h).1, if_neg hkept]

lemma unacked_append_sent (log : List LogEntry) (envelope : ServerEnvelope) :
    unacked key (log ++ [.sent envelope]) =
      unacked key log ++ if envelope.key = key then [envelope] else [] := by
  have hall : (unacked key log).filter
      (fun other => ¬ (LogEntry.sent envelope).Covers other) = unacked key log :=
    List.filter_eq_self.mpr fun other _ => decide_eq_true id
  rw [unacked_append, hall]
  by_cases hkey : envelope.key = key <;> simp [unacked, hkey]

lemma unacked_append_acked (key other : ClientKey) (log : List LogEntry) (seqId : ℕ)
    (segmentId : Option ℕ) :
    unacked key (log ++ [.acked other seqId segmentId]) =
      if other = key then
        (unacked key log).filter fun envelope => ¬ Covers seqId segmentId envelope
      else unacked key log := by
  rw [unacked_append]
  simp only [unacked, List.append_nil]
  split_ifs with hother
  · apply List.filter_congr
    intro envelope henvelope
    have hkey := key_of_mem_unacked henvelope
    simp [LogEntry.Covers, hother, hkey]
  · apply List.filter_eq_self.mpr
    intro envelope henvelope
    have hkey := key_of_mem_unacked henvelope
    simp [LogEntry.Covers, hkey, hother]

lemma unacked_sublist (log : List LogEntry) : (unacked key log).Sublist (sentOn key log) := by
  induction log with
  | nil => exact List.Sublist.refl _
  | cons entry log ih =>
    cases entry with
    | acked key' seqId segmentId => exact ih
    | sent first =>
      unfold unacked
      by_cases hkey : first.key = key
      · have hsent : sentOn key (.sent first :: log) = first :: sentOn key log := by
          simp [sentOn, hkey]
        rw [hsent]
        split
        · exact ih.cons_cons first
        · exact ih.cons first
      · have hsent : sentOn key (.sent first :: log) = sentOn key log := by
          simp [sentOn, hkey]
        rw [hsent, if_neg fun h => hkey h.1]
        exact ih

end unacked

/-! ### The buffer and its counter -/

namespace BoundedOutboundBuffer

/-- The number of envelopes in all buffers. -/
def total (outbound : BoundedOutboundBuffer) : ℕ :=
  weight (fun _ buffer => buffer.length) outbound.bufferByStream

section buffer

variable {outbound : BoundedOutboundBuffer} {envelope : ServerEnvelope} {key : ClientKey}

variable (outbound)

lemma weight_erase_buffer (key : ClientKey) :
    weight (fun _ buffer => buffer.length) (outbound.bufferByStream.erase key) +
      (outbound.buffer key).length = outbound.total := by
  unfold buffer total
  cases hlookup : outbound.bufferByStream.lookup key with
  | none => rw [erase_of_lookup_eq_none hlookup, Option.getD_none, List.length_nil, add_zero]
  | some held => exact weight_erase _ hlookup

lemma buffer_insert (envelope : ServerEnvelope)
    (key : ClientKey) : (outbound.insert envelope).buffer key =
      outbound.buffer key ++ if envelope.key = key then [envelope] else [] := by
  by_cases hkey : envelope.key = key
  · subst hkey
    simp [insert, buffer]
  · have hne : key ≠ envelope.key := fun h => hkey h.symm
    simp [insert, buffer, AList.lookup_insert_ne hne, hkey]

lemma total_insert (envelope : ServerEnvelope) :
    (outbound.insert envelope).total = outbound.total + 1 := by
  have hweight := outbound.weight_erase_buffer envelope.key
  unfold insert
  rw [total, weight_insert, List.length_append, List.length_singleton]
  omega

variable {outbound}

/-- The loop removes what is acknowledged and counts it. -/
theorem retain_eq_ok (ackedCursor : ℕ ×ₗ ℕ) {buffer : List ServerEnvelope} {used : ℕ}
    (h : buffer.length ≤ used) :
    ∃ used', retain ackedCursor buffer used =
        .ok (buffer.filter fun envelope => ¬ envelope.cursor ≤ ackedCursor, used') ∧
      used' + buffer.length =
        used + (buffer.filter fun envelope => ¬ envelope.cursor ≤ ackedCursor).length := by
  induction buffer generalizing used with
  | nil => exact ⟨used, rfl, rfl⟩
  | cons envelope rest ih =>
    rw [List.length_cons] at h
    unfold retain
    by_cases hacked : envelope.cursor ≤ ackedCursor
    · have hfilter : (envelope :: rest).filter (fun envelope => ¬ envelope.cursor ≤ ackedCursor) =
          rest.filter fun envelope => ¬ envelope.cursor ≤ ackedCursor :=
        List.filter_cons_of_neg (by simpa using hacked)
      cases used with
      | zero => omega
      | succ used =>
        obtain ⟨used', hretain, hcount⟩ := ih (Nat.le_of_succ_le_succ h)
        refine ⟨used', ?_, ?_⟩
        · rw [if_pos hacked, hfilter]
          exact hretain
        · rw [hfilter, List.length_cons]
          omega
    · have hfilter : (envelope :: rest).filter (fun envelope => ¬ envelope.cursor ≤ ackedCursor) =
          envelope :: rest.filter fun envelope => ¬ envelope.cursor ≤ ackedCursor :=
        List.filter_cons_of_pos (by simpa using hacked)
      obtain ⟨used', hretain, hcount⟩ := ih (Nat.le_of_succ_le h)
      refine ⟨used', ?_, ?_⟩
      · rw [if_neg hacked, hfilter, hretain]
        rfl
      · rw [hfilter, List.length_cons, List.length_cons]
        omega

/-- An acknowledgement takes what it covers from the buffer of its stream, and the counter stays
right. -/
theorem ack_eq_ok (h : outbound.used = outbound.total) (key : ClientKey) (seqId : ℕ)
    (segmentId : Option ℕ) :
    ∃ next, outbound.ack key seqId segmentId = .ok next ∧ next.used = next.total ∧
      ∀ other, next.buffer other =
        if key = other then
          (outbound.buffer other).filter fun envelope => ¬ Covers seqId segmentId envelope
        else outbound.buffer other := by
  unfold ack
  cases hlookup : outbound.bufferByStream.lookup key with
  | none =>
    refine ⟨outbound, rfl, h, ?_⟩
    intro other
    split_ifs with hother
    · subst hother
      simp [buffer, hlookup]
    · rfl
  | some held =>
    have hweight := outbound.weight_erase_buffer key
    have hheld : outbound.buffer key = held := by rw [buffer, hlookup, Option.getD_some]
    rw [hheld] at hweight
    obtain ⟨used', hretain, hcount⟩ := retain_eq_ok
      (toLex (seqId, segmentId.getD usizeMax)) (show held.length ≤ outbound.used by omega)
    simp only [cursor_le_iff] at hretain hcount
    simp only [hretain, ok_bind]
    generalize hkept : held.filter (fun envelope => ¬ Covers seqId segmentId envelope) = kept at *
    have hother : ∀ other, ¬ key = other → other ≠ key := fun other hne heq => hne heq.symm
    split_ifs with hempty
    · subst hempty
      refine ⟨⟨outbound.bufferByStream.erase key, used'⟩, rfl, ?_, ?_⟩
      · simp only [total, List.length_nil] at hcount ⊢
        omega
      · intro other
        split_ifs with heq
        · subst heq
          rw [hheld, hkept]
          simp [buffer]
        · simp [buffer, AList.lookup_erase_ne (hother other heq)]
    · refine ⟨⟨outbound.bufferByStream.insert key kept, used'⟩, rfl, ?_, ?_⟩
      · simp only [total, weight_insert]
        omega
      · intro other
        split_ifs with heq
        · subst heq
          rw [hheld, hkept]
          simp [buffer]
        · simp [buffer, AList.lookup_insert_ne (hother other heq)]

/-- What is resent on a stream is what its buffer holds. -/
theorem filter_serverEnvelopes (hown : ∀ key, ∀ envelope ∈ outbound.buffer key, envelope.key = key)
    {keys : List ClientKey} (hkeys : keys.Perm outbound.bufferByStream.keys) (key : ClientKey) :
    (outbound.serverEnvelopes keys).filter (·.key = key) = outbound.buffer key := by
  have hnodup : keys.Nodup := hkeys.nodup_iff.mpr outbound.bufferByStream.keys_nodup
  have hempty : key ∉ keys → outbound.buffer key = [] := by
    intro hkey
    have hlookup : outbound.bufferByStream.lookup key = none :=
      AList.lookup_eq_none.mpr fun hmem => hkey (hkeys.mem_iff.mpr hmem)
    rw [buffer, hlookup, Option.getD_none]
  have hparts : ∀ other, (outbound.buffer other).filter (·.key = key) =
      if other = key then outbound.buffer key else [] := by
    intro other
    split_ifs with hother
    · subst hother
      exact List.filter_eq_self.mpr fun envelope h => decide_eq_true (hown other envelope h)
    · apply List.filter_eq_nil_iff.mpr
      intro envelope h
      simpa [hown other envelope h] using hother
  unfold serverEnvelopes
  simp only [List.filter_flatMap, hparts]
  clear hkeys
  induction keys with
  | nil => exact (hempty List.not_mem_nil).symm
  | cons first keys ih =>
    obtain ⟨hfirst, hnodup⟩ := List.nodup_cons.mp hnodup
    rw [List.flatMap_cons]
    split_ifs with heq
    · subst heq
      have hrest : keys.flatMap (fun other => if other = first then outbound.buffer first else [])
          = [] := by
        apply List.flatMap_eq_nil_iff.mpr
        intro other hother
        have hne : other ≠ first := by
          rintro rfl
          exact hfirst hother
        exact if_neg hne
      rw [hrest, List.append_nil]
    · rw [List.nil_append]
      refine ih hnodup fun hkey => hempty ?_
      rw [List.mem_cons, not_or]
      exact ⟨fun h => heq h.symm, hkey⟩

end buffer

end BoundedOutboundBuffer

/-! ### Retained envelopes -/

/-- The buffers hold what is not acknowledged, and the counter is their size. -/
structure Retained (outbound : BoundedOutboundBuffer) (log : List LogEntry) : Prop where
  buffered : ∀ key, outbound.buffer key = unacked key log
  counted : outbound.used = outbound.total

section retained

variable {outbound : BoundedOutboundBuffer} {log : List LogEntry}

lemma Retained.new : Retained .new [] := ⟨fun _ => rfl, rfl⟩

variable (h : Retained outbound log)
include h

lemma Retained.insert (envelope : ServerEnvelope) :
    Retained (outbound.insert envelope) (log ++ [.sent envelope]) := by
  refine ⟨?_, ?_⟩
  · intro key
    rw [BoundedOutboundBuffer.buffer_insert, unacked_append_sent, h.buffered]
  · rw [BoundedOutboundBuffer.total_insert, ← h.counted]
    rfl

lemma Retained.insertAll (sent : List ServerEnvelope) :
    Retained (sent.foldl .insert outbound) (log ++ sent.map .sent) := by
  induction sent generalizing outbound log with
  | nil => simpa using h
  | cons envelope sent ih =>
    have hrest := ih (h.insert envelope)
    rwa [List.append_assoc] at hrest

/-- No acknowledgement makes the counter underflow. -/
theorem Retained.ack (key : ClientKey) (seqId : ℕ) (segmentId : Option ℕ) :
    ∃ next, outbound.ack key seqId segmentId = .ok next ∧
      Retained next (log ++ [.acked key seqId segmentId]) := by
  obtain ⟨next, hack, hcounted, hbuffer⟩ :=
    BoundedOutboundBuffer.ack_eq_ok h.counted key seqId segmentId
  refine ⟨next, hack, ?_, hcounted⟩
  intro other
  rw [hbuffer, unacked_append_acked, h.buffered]

end retained

/-! ### The reader -/

/-- The acknowledgements play no role for the parts of the state that the writer uses. -/
structure Untouched (websocket next : RemoteControlWebsocket) : Prop where
  outboundBuffer : next.state.outboundBuffer = websocket.state.outboundBuffer
  nextSeqIdByStream : next.state.nextSeqIdByStream = websocket.state.nextSeqIdByStream
  log : next.log = websocket.log

section reader

variable {reassembler : ClientSegmentReassembler} {codec : Codec} {envelope out : ClientEnvelope}
  {now wireSizeBytes seqId : ℕ} {rank : ClientId → ℕ} {state : WebsocketState} {key : ClientKey}
  {segmentId : Option ℕ} {handling : ClientTracker.Handling}

/-- What is forwarded is the envelope, or a message that was put together. -/
theorem forward_eq (h : (reassembler.observe codec envelope now rank).1 = .forward out) :
    out = envelope ∨ ∃ message, out = { envelope with event := .clientMessage message } := by
  by_cases hchunk : envelope.chunk = none
  · rcases reassembler.observe_cases codec envelope now rank with
      ⟨-, heq⟩ | ⟨-, heq⟩ | ⟨streamId, -, heq⟩ |
      ⟨streamId, metadata, segmentId, text, -, -, hsome, -, -⟩
    · rw [heq] at h
      exact .inl (ClientSegmentObservation.forward.inj h).symm
    · simp [heq] at h
    · simp [heq] at h
    · cases hchunk.symm.trans hsome
  · obtain ⟨assembly, chunk, message, -, -, -, -, hout⟩ :=
      ClientSegmentReassembler.observe_forward hchunk h
    exact .inr ⟨message, hout⟩

variable (state)

lemma observeClientMessage_frame (codec : Codec)
    (envelope : ClientEnvelope) (wireSizeBytes now : ℕ) (rank : ClientId → ℕ) :
    (state.observeClientMessage codec envelope wireSizeBytes now rank).2.outboundBuffer =
        state.outboundBuffer ∧
      (state.observeClientMessage codec envelope wireSizeBytes now rank).2.nextSeqIdByStream =
        state.nextSeqIdByStream ∧
      ∀ out, (state.observeClientMessage codec envelope wireSizeBytes now rank).1 = .forward out →
        out = envelope ∨ ∃ message, out = { envelope with event := .clientMessage message } := by
  unfold WebsocketState.observeClientMessage
  split_ifs
  · exact ⟨rfl, rfl, fun out h => nomatch h⟩
  · cases envelope.streamId with
    | some streamId => exact ⟨rfl, rfl, fun out h => nomatch h⟩
    | none => exact ⟨rfl, rfl, fun out h => nomatch h⟩
  · exact ⟨rfl, rfl, fun out h => forward_eq h⟩

/-- A message that was put together is no acknowledgement. -/
theorem acknowledgement_forward
    (h : out = envelope ∨ ∃ message, out = { envelope with event := .clientMessage message })
    (hnone : acknowledgement envelope = []) : acknowledgement out = [] := by
  rcases h with rfl | ⟨message, rfl⟩
  · exact hnone
  · rfl

lemma recordAck_of_not_ack (h : acknowledgement envelope = []) :
    state.recordAck envelope = .ok state.outboundBuffer := by
  unfold acknowledgement at h
  unfold WebsocketState.recordAck
  split at h
  · cases h
  · rfl

lemma recordAck_of_ack (h : acknowledgement envelope = [.acked key seqId segmentId]) :
    state.recordAck envelope = state.outboundBuffer.ack key seqId segmentId := by
  unfold acknowledgement at h
  unfold WebsocketState.recordAck
  split at h
  · obtain ⟨rfl, rfl, rfl⟩ := LogEntry.acked.inj (List.singleton_inj.mp h)
    rfl
  · cases h

variable {state}

lemma record_eq_ok {outbound : BoundedOutboundBuffer} (h : state.recordAck envelope = .ok outbound)
    (messageKey : Option ((ClientId × Option StreamId) × ℕ)) :
    ∃ next, state.recordClientMessageDelivery envelope messageKey = .ok next ∧
      next.outboundBuffer = outbound ∧ next.nextSeqIdByStream = state.nextSeqIdByStream := by
  unfold WebsocketState.recordClientMessageDelivery
  rw [h, ok_bind]
  exact ⟨_, rfl, rfl, rfl⟩

lemma handleMessage_ack (tracker : ClientTracker) (handling : ClientTracker.Handling)
    (h : acknowledgement envelope ≠ []) :
    ∃ next, tracker.handleMessage envelope handling = (next, .done) := by
  unfold acknowledgement at h
  split at h
  · rename_i hevent hseq hstream
    unfold ClientTracker.handleMessage
    simp only [hevent]
    split
    · exact ⟨_, rfl⟩
    · exact ⟨_, rfl⟩
  · exact absurd rfl h

lemma outboundBuffer_invalidateClosed (state : WebsocketState) (envelope : ClientEnvelope) :
    (state.invalidateClosed envelope).outboundBuffer = state.outboundBuffer ∧
      (state.invalidateClosed envelope).nextSeqIdByStream = state.nextSeqIdByStream := by
  unfold WebsocketState.invalidateClosed
  split
  · exact ⟨rfl, rfl⟩
  · exact ⟨rfl, rfl⟩
  · exact ⟨rfl, rfl⟩

/-- An acknowledgement is neither a chunk nor stopped by the tracker. -/
theorem observeClientMessage_ack (state : WebsocketState) (h : acknowledgement envelope ≠ [])
    (codec : Codec) (wireSizeBytes now : ℕ) (rank : ClientId → ℕ) :
    state.observeClientMessage codec envelope wireSizeBytes now rank =
      (.forward envelope, state) := by
  unfold acknowledgement at h
  split at h
  · rename_i hevent hseq hstream
    simp [WebsocketState.observeClientMessage, WebsocketState.isCompleted,
      WebsocketState.isIgnored, WebsocketState.clientMessageKey,
      ClientSegmentReassembler.observe, hevent]
  · exact absurd rfl h

namespace RemoteControlWebsocket

variable {websocket : RemoteControlWebsocket}

lemma receive_of_not_ack (websocket : RemoteControlWebsocket)
    (h : acknowledgement envelope = []) (codec : Codec) (wireSizeBytes now : ℕ)
    (rank : ClientId → ℕ) (handling : ClientTracker.Handling) :
    ∃ next, websocket.receive codec envelope wireSizeBytes now rank handling = .ok next ∧
      Untouched websocket next := by
  obtain ⟨houtbound, hnext, hforward⟩ :=
    observeClientMessage_frame websocket.state codec envelope wireSizeBytes now rank
  unfold receive
  rw [h, List.append_nil]
  rcases hobserve :
    websocket.state.observeClientMessage codec envelope wireSizeBytes now rank with ⟨seen, state⟩
  rw [hobserve] at houtbound hnext hforward
  cases seen with
  | pending => exact ⟨_, rfl, houtbound, hnext, rfl⟩
  | dropped => exact ⟨_, rfl, houtbound, hnext, rfl⟩
  | forward out =>
    rcases hhandle : websocket.tracker.handleMessage out handling with ⟨tracker, ending⟩
    cases ending with
    | stopped =>
      simp only [hhandle]
      exact ⟨⟨tracker, state, websocket.log⟩, rfl, houtbound, hnext, rfl⟩
    | aborted =>
      simp only [hhandle]
      exact ⟨⟨tracker, state, websocket.log⟩, rfl, houtbound, hnext, rfl⟩
    | done =>
      have hnone := acknowledgement_forward (hforward out rfl) h
      obtain ⟨recorded, hrecord, houtbound', hnext'⟩ := record_eq_ok
        (recordAck_of_not_ack state hnone) (WebsocketState.clientMessageKey envelope)
      obtain ⟨hclosed, hclosed'⟩ := outboundBuffer_invalidateClosed recorded out
      simp only [hhandle, hrecord, ok_bind, pure_eq_ok]
      exact ⟨_, rfl, hclosed.trans (houtbound'.trans houtbound),
        hclosed'.trans (hnext'.trans hnext), rfl⟩

lemma receive_of_ack {outbound : BoundedOutboundBuffer}
    (h : acknowledgement envelope = [.acked key seqId segmentId])
    (hack : websocket.state.outboundBuffer.ack key seqId segmentId = .ok outbound)
    (codec : Codec) (wireSizeBytes now : ℕ) (rank : ClientId → ℕ)
    (handling : ClientTracker.Handling) :
    ∃ next, websocket.receive codec envelope wireSizeBytes now rank handling = .ok next ∧
      next.state.outboundBuffer = outbound ∧
      next.state.nextSeqIdByStream = websocket.state.nextSeqIdByStream ∧
      next.log = websocket.log ++ [.acked key seqId segmentId] := by
  have hne : acknowledgement envelope ≠ [] := by simp [h]
  obtain ⟨tracker, hhandle⟩ := handleMessage_ack websocket.tracker handling hne
  obtain ⟨recorded, hrecord, houtbound, hnext⟩ := record_eq_ok
    ((recordAck_of_ack websocket.state h).trans hack) (WebsocketState.clientMessageKey envelope)
  obtain ⟨hclosed, hclosed'⟩ := outboundBuffer_invalidateClosed recorded envelope
  unfold receive
  rw [observeClientMessage_ack websocket.state hne, h]
  simp only [hhandle, hrecord, ok_bind, pure_eq_ok]
  exact ⟨_, rfl, hclosed.trans houtbound, hclosed'.trans hnext, rfl⟩

variable (websocket)

lemma untouched_tracker (tracker : ClientTracker) :
    Untouched websocket { websocket with tracker := tracker } :=
  ⟨rfl, rfl, rfl⟩

lemma untouched_complete (task : ClientKey × ConnectionId) (sending : Sending) :
    Untouched websocket (websocket.complete task sending) := by
  unfold complete
  split
  · simp only
    split
    · exact ⟨rfl, rfl, rfl⟩
    · exact ⟨rfl, rfl, rfl⟩
  · exact ⟨rfl, rfl, rfl⟩

lemma outboundBuffer_invalidateAll (state : WebsocketState) (keys : List ClientKey) :
    (keys.foldl .invalidateStream state).outboundBuffer = state.outboundBuffer ∧
      (keys.foldl .invalidateStream state).nextSeqIdByStream = state.nextSeqIdByStream := by
  induction keys generalizing state with
  | nil => exact ⟨rfl, rfl⟩
  | cons key keys ih => exact ih (state.invalidateStream key)

lemma untouched_sweep (now : ℕ)
    (keys : List (ClientKey × Sending)) : Untouched websocket (websocket.sweep now keys) := by
  unfold sweep
  split
  · obtain ⟨houtbound, hnext⟩ := outboundBuffer_invalidateAll websocket.state _
    exact ⟨houtbound, hnext, rfl⟩
  · exact ⟨rfl, rfl, rfl⟩

end RemoteControlWebsocket

end reader

/-! ### Sequence numbers -/

/-- After `n` events were numbered on the stream: the next number, and the cursors so far. -/
structure Numbered (nextSeqId : Option ℕ) (sent : List ServerEnvelope) (n : ℕ) : Prop where
  next : nextSeqId.getD 1 = min (n + 1) u64Max
  bound : ∀ envelope ∈ sent, envelope.seqId ≤ n
  rising : n ≤ u64Max → sent.Pairwise (·.cursor < ·.cursor)

section numbers

variable {nextSeqId : Option ℕ} {sent parts : List ServerEnvelope} {n : ℕ}
  {envelope : ServerEnvelope}

lemma Numbered.zero : Numbered none [] 0 := ⟨by decide, by simp, fun _ => List.Pairwise.nil⟩

/-- The parts of the next event follow all that was sent. -/
theorem Numbered.append (h : Numbered nextSeqId sent n) (hparts : PartsOf envelope parts)
    (hseq : envelope.seqId = nextSeqId.getD 1) :
    Numbered (some (min (envelope.seqId + 1) u64Max)) (sent ++ parts) (n + 1) := by
  rw [h.next] at hseq
  refine ⟨?_, ?_, ?_⟩
  · rw [Option.getD_some, hseq]
    omega
  · intro part hpart
    rcases List.mem_append.mp hpart with hold | hnew
    · exact le_trans (h.bound part hold) (Nat.le_succ n)
    · rw [(hparts.same part hnew).2, hseq]
      exact min_le_left _ _
  · intro hsmall
    rw [min_eq_left hsmall] at hseq
    rw [List.pairwise_append]
    refine ⟨h.rising (by omega), ?_, ?_⟩
    · apply hparts.rising.imp_of_mem
      intro a b ha hb hlt
      rw [ServerEnvelope.cursor, ServerEnvelope.cursor, Prod.Lex.toLex_lt_toLex]
      exact .inr ⟨((hparts.same a ha).2.trans (hparts.same b hb).2.symm), hlt⟩
    · intro a ha b hb
      have hle := h.bound a ha
      have hseqb := (hparts.same b hb).2
      rw [ServerEnvelope.cursor, ServerEnvelope.cursor, Prod.Lex.toLex_lt_toLex]
      exact .inl (show a.seqId < b.seqId by omega)

lemma sentOn_append (key : ClientKey) (log rest : List LogEntry) :
    sentOn key (log ++ rest) = sentOn key log ++ sentOn key rest :=
  List.filterMap_append

lemma sentOn_map_sent (key : ClientKey) (sent : List ServerEnvelope) :
    sentOn key (sent.map .sent) = sent.filter (·.key = key) := by
  induction sent with
  | nil => rfl
  | cons first sent ih =>
    by_cases hkey : first.key = key <;> simp_all [sentOn]

end numbers

/-! ### Runs -/

namespace RemoteControlWebsocket

/-- The number of events that a run has queued for the stream. -/
def queuedOn (key : ClientKey) (actions : List Action) : ℕ :=
  actions.countP fun
    | .queued queued => queued.key = key
    | _ => false

/-- What holds after the actions. -/
structure Inv (codec : ServerCodec) (actions : List Action) (websocket : RemoteControlWebsocket) :
    Prop where
  retained : Retained websocket.state.outboundBuffer websocket.log
  serializes : ∀ envelope, .sent envelope ∈ websocket.log → (codec.serialize envelope).isSome
  numbered : ∀ key, ∃ n ≤ queuedOn key actions,
    Numbered (websocket.state.nextSeqIdByStream key) (sentOn key websocket.log) n

section runs

variable {codec : Codec} {serverCodec : ServerCodec} {actions : List Action} {action : Action}
  {websocket next : RemoteControlWebsocket}

lemma queuedOn_le (key : ClientKey) (actions : List Action) (action : Action) :
    queuedOn key actions ≤ queuedOn key (actions ++ [action]) := by
  unfold queuedOn
  rw [List.countP_append]
  exact Nat.le_add_right _ _

lemma Inv.of_untouched (h : Inv serverCodec actions websocket)
    (hsame : Untouched websocket next) (action : Action) :
    Inv serverCodec (actions ++ [action]) next := by
  refine ⟨?_, ?_, ?_⟩
  · rw [hsame.outboundBuffer, hsame.log]
    exact h.retained
  · rw [hsame.log]
    exact h.serializes
  · intro key
    obtain ⟨n, hn, hnumbered⟩ := h.numbered key
    rw [hsame.nextSeqIdByStream, hsame.log]
    exact ⟨n, hn.trans (queuedOn_le key actions action), hnumbered⟩

/-- What the writer does with an event: nothing is sent, or its parts are. -/
theorem numberQueued_cases (state : WebsocketState) (codec : ServerCodec)
    (queued : QueuedServerEnvelope) :
    let seqId := (state.nextSeqIdByStream queued.key).getD 1
    state.numberQueued codec queued =
      ({ state with
        nextSeqIdByStream := Function.update state.nextSeqIdByStream queued.key (some seqId) },
        []) ∨
    ∃ envelope parts, envelope.key = queued.key ∧ envelope.seqId = seqId ∧
      PartsOf envelope parts ∧ (∀ part ∈ parts, (codec.serialize part).isSome) ∧
      state.numberQueued codec queued =
        ({ state with
          outboundBuffer := parts.foldl .insert state.outboundBuffer
          nextSeqIdByStream :=
            Function.update state.nextSeqIdByStream queued.key (some (min (seqId + 1) u64Max)) },
          parts) := by
  intro seqId
  let envelope : ServerEnvelope := ⟨queued.event, queued.clientId, queued.streamId, seqId⟩
  unfold WebsocketState.numberQueued
  cases hsplit : codec.splitServerEnvelopeForTransport envelope with
  | none =>
    simp only [envelope, seqId] at hsplit
    simp only [hsplit]
    exact .inl rfl
  | some parts =>
    refine .inr ⟨envelope, parts.filter fun part => (codec.serialize part).isSome, rfl, rfl,
      (partsOf_split hsplit).filter _, fun part hpart => (List.mem_filter.mp hpart).2, ?_⟩
    simp only [envelope, seqId] at hsplit
    simp only [hsplit]
    rfl

lemma Inv.sendQueued (h : Inv serverCodec actions websocket) (queued : QueuedServerEnvelope) :
    Inv serverCodec (actions ++ [.queued queued]) (websocket.sendQueued serverCodec queued) := by
  unfold RemoteControlWebsocket.sendQueued
  split_ifs with hroom
  · rcases numberQueued_cases websocket.state serverCodec queued with
      heq | ⟨envelope, parts, hkey, hseq, hparts, hserialize, heq⟩
    · rw [heq]
      simp only [List.map_nil, List.append_nil]
      refine ⟨h.retained, h.serializes, ?_⟩
      intro key
      obtain ⟨n, hn, hnumbered⟩ := h.numbered key
      refine ⟨n, hn.trans (queuedOn_le key actions _), ?_⟩
      by_cases hown : key = queued.key
      · subst hown
        simp only [Function.update_self]
        exact ⟨hnumbered.next, hnumbered.bound, hnumbered.rising⟩
      · simp only [Function.update_of_ne hown]
        exact hnumbered
    · rw [heq]
      refine ⟨h.retained.insertAll parts, ?_, ?_⟩
      · intro sent hsent
        rcases List.mem_append.mp hsent with hold | hnew
        · exact h.serializes sent hold
        · obtain ⟨part, hpart, hpartEq⟩ := List.mem_map.mp hnew
          obtain rfl := LogEntry.sent.inj hpartEq
          exact hserialize part hpart
      · intro key
        obtain ⟨n, hn, hnumbered⟩ := h.numbered key
        simp only [sentOn_append, sentOn_map_sent]
        by_cases hown : key = queued.key
        · subst hown
          have hall : parts.filter (fun part => part.key = queued.key) = parts :=
            List.filter_eq_self.mpr fun part hpart =>
              decide_eq_true ((hparts.same part hpart).1.trans hkey)
          have hcount : queuedOn queued.key (actions ++ [.queued queued]) =
              queuedOn queued.key actions + 1 := by
            simp [queuedOn]
          refine ⟨n + 1, by omega, ?_⟩
          rw [hall, Function.update_self, ← hseq]
          exact hnumbered.append hparts hseq
        · have hnone : parts.filter (fun part => part.key = key) = [] := by
            apply List.filter_eq_nil_iff.mpr
            intro part hpart
            rw [decide_eq_true_eq, (hparts.same part hpart).1, hkey]
            exact fun heq => hown heq.symm
          refine ⟨n, hn.trans (queuedOn_le key actions _), ?_⟩
          rw [hnone, List.append_nil, Function.update_of_ne hown]
          exact hnumbered
  · exact h.of_untouched ⟨rfl, rfl, rfl⟩ _

lemma Inv.receive (h : Inv serverCodec actions websocket) (envelope : ClientEnvelope)
    (wireSizeBytes now : ℕ) (rank : ClientId → ℕ) (handling : ClientTracker.Handling) :
    ∃ next, websocket.receive codec envelope wireSizeBytes now rank handling = .ok next ∧
      Inv serverCodec (actions ++ [.receive envelope wireSizeBytes now rank handling]) next := by
  by_cases hack : acknowledgement envelope = []
  · obtain ⟨next, hreceive, hsame⟩ :=
      receive_of_not_ack websocket hack codec wireSizeBytes now rank handling
    exact ⟨next, hreceive, h.of_untouched hsame _⟩
  · obtain ⟨key, seqId, segmentId, hentry⟩ : ∃ key seqId segmentId,
        acknowledgement envelope = [.acked key seqId segmentId] := by
      unfold acknowledgement at hack ⊢
      split at hack
      · exact ⟨_, _, _, rfl⟩
      · exact absurd rfl hack
    obtain ⟨outbound, hacked, hretained⟩ := h.retained.ack key seqId segmentId
    obtain ⟨next, hreceive, houtbound, hnext, hlog⟩ :=
      receive_of_ack hentry hacked codec wireSizeBytes now rank handling
    refine ⟨next, hreceive, ?_, ?_, ?_⟩
    · rw [houtbound, hlog]
      exact hretained
    · intro sent hsent
      rw [hlog] at hsent
      exact h.serializes sent (by simpa using hsent)
    · intro other
      obtain ⟨n, hn, hnumbered⟩ := h.numbered other
      refine ⟨n, hn.trans (queuedOn_le other actions _), ?_⟩
      have hsent : sentOn other [.acked key seqId segmentId] = [] := rfl
      rw [hnext, hlog, sentOn_append, hsent, List.append_nil]
      exact hnumbered

lemma Inv.step (h : Inv serverCodec actions websocket) (codec : Codec) (action : Action) :
    ∃ next, step codec serverCodec websocket action = .ok next ∧
      Inv serverCodec (actions ++ [action]) next := by
  cases action with
  | queued queued => exact ⟨_, rfl, h.sendQueued queued⟩
  | receive envelope wireSizeBytes now rank handling =>
    exact h.receive envelope wireSizeBytes now rank handling
  | complete task sending => exact ⟨_, rfl, h.of_untouched (untouched_complete _ _ _) _⟩
  | sweep now keys => exact ⟨_, rfl, h.of_untouched (untouched_sweep _ _ _) _⟩
  | land connectionIds => exact ⟨_, rfl, h.of_untouched (untouched_tracker _ _) _⟩
  | otherConnection => exact ⟨_, rfl, h.of_untouched (untouched_tracker _ _) _⟩
  | reconnect => exact ⟨_, rfl, h.of_untouched ⟨rfl, rfl, rfl⟩ _⟩

lemma inv_run (codec : Codec) (serverCodec : ServerCodec) (nextConnectionId : ConnectionId)
    (actions : List Action) :
    ∃ websocket, run codec serverCodec nextConnectionId actions = .ok websocket ∧
      Inv serverCodec actions websocket := by
  induction actions using List.reverseRecOn with
  | nil =>
    refine ⟨new nextConnectionId, rfl, .new, ?_, ?_⟩
    · intro envelope henvelope
      cases henvelope
    · intro key
      exact ⟨0, Nat.zero_le _, .zero⟩
  | append_singleton actions action ih =>
    obtain ⟨websocket, hrun, hinv⟩ := ih
    obtain ⟨next, hstep, hnext⟩ := hinv.step codec action
    refine ⟨next, ?_, hnext⟩
    rw [run_append, hrun, ok_bind, hstep]

/-- What a run leaves for the next connection. -/
structure Kept (serverCodec : ServerCodec) (actions : List Action)
    (websocket : RemoteControlWebsocket) : Prop where
  /-- the buffer of a stream holds what was sent on it and is not acknowledged -/
  buffered : ∀ key, websocket.state.outboundBuffer.buffer key = unacked key websocket.log
  /-- the cursors rise until the sequence numbers of the stream are used up -/
  rising : ∀ key, queuedOn key actions ≤ u64Max →
    (websocket.state.outboundBuffer.buffer key).Pairwise (·.cursor < ·.cursor)
  /-- a reconnect resends just that, in whatever order the streams come -/
  resends : ∀ keys, keys.Perm websocket.state.outboundBuffer.bufferByStream.keys → ∀ key,
    (websocket.resent serverCodec keys).filter (·.key = key) = unacked key websocket.log
  /-- the counter is the number of envelopes in all buffers -/
  counted : websocket.state.outboundBuffer.used = websocket.state.outboundBuffer.total

lemma mem_log_of_mem_unacked {key : ClientKey} {log : List LogEntry} {envelope : ServerEnvelope}
    (h : envelope ∈ unacked key log) : .sent envelope ∈ log := by
  have hsent := (unacked_sublist key log).subset h
  obtain ⟨entry, hentry, heq⟩ := List.mem_filterMap.mp hsent
  cases entry with
  | acked key' seqId segmentId => cases heq
  | sent first =>
    by_cases hkey : first.key = key
    · simp only [hkey, if_true, Option.some.injEq] at heq
      rwa [← heq]
    · simp [hkey] at heq

lemma Inv.kept (h : Inv serverCodec actions websocket) : Kept serverCodec actions websocket := by
  refine ⟨h.retained.buffered, ?_, ?_, h.retained.counted⟩
  · intro key hcount
    obtain ⟨n, hn, hnumbered⟩ := h.numbered key
    rw [h.retained.buffered]
    exact (hnumbered.rising (hn.trans hcount)).sublist (unacked_sublist key websocket.log)
  · intro keys hkeys key
    have hall : websocket.resent serverCodec keys =
        websocket.state.outboundBuffer.serverEnvelopes keys := by
      apply List.filter_eq_self.mpr
      intro envelope henvelope
      obtain ⟨other, -, hother⟩ := List.mem_flatMap.mp henvelope
      rw [h.retained.buffered] at hother
      exact h.serializes envelope (mem_log_of_mem_unacked hother)
    rw [hall, ← h.retained.buffered key]
    apply BoundedOutboundBuffer.filter_serverEnvelopes _ hkeys
    intro other envelope henvelope
    rw [h.retained.buffered] at henvelope
    exact key_of_mem_unacked henvelope

/-- In every run of queued events, acknowledgements and reconnects. -/
theorem kept_run (codec : Codec) (serverCodec : ServerCodec) (nextConnectionId : ConnectionId)
    (actions : List Action) :
    ∃ websocket, run codec serverCodec nextConnectionId actions = .ok websocket ∧
      Kept serverCodec actions websocket := by
  obtain ⟨websocket, hrun, hinv⟩ := inv_run codec serverCodec nextConnectionId actions
  exact ⟨websocket, hrun, hinv.kept⟩

end runs

/-! ### Numbers that are used up -/

/-- A codec that decodes nothing. -/
def noCodec : Codec := ⟨fun _ => none, fun _ => none⟩

/-- A codec under which every envelope is short. -/
def shortCodec : ServerCodec := ⟨fun _ => some [], fun _ => none, fun _ => []⟩

/-- The answer to a ping on the stream `s` of the client `c`. -/
def pong : QueuedServerEnvelope := ⟨.pong .active, "c".toList, "s".toList⟩

/-- The envelope of such an answer. -/
def pongEnvelope (seqId : ℕ) : ServerEnvelope := ⟨pong.event, pong.clientId, pong.streamId, seqId⟩

/-- An acknowledgement of all numbers of the stream. -/
def ackAll : ClientEnvelope := ⟨.ack none, "c".toList, some "s".toList, some u64Max⟩

/-- An answer is sent and acknowledged. -/
def pongRound : List Action :=
  [.queued pong, .receive ackAll 0 0 (fun _ => 0) ⟨0, [], ⟨[], .sent⟩, ⟨[], .sent⟩, ⟨[], .sent⟩⟩]

lemma ack_insert_new (envelope : ServerEnvelope) (h : envelope.seqId ≤ u64Max) :
    (BoundedOutboundBuffer.new.insert envelope).ack envelope.key u64Max none = .ok .new := by
  have hcovers : envelope.cursor ≤ toLex (u64Max, usizeMax) := by
    apply (cursor_le_iff u64Max none envelope).mpr
    rcases h.lt_or_eq with hlt | heq
    · exact .inl hlt
    · exact .inr ⟨heq, rfl⟩
  have herase : (AList.singleton envelope.key [envelope] :
      AList fun _ : ClientKey => List ServerEnvelope).erase envelope.key = ∅ := by
    apply AList.ext
    simp [AList.erase.eq_def]
  unfold BoundedOutboundBuffer.ack BoundedOutboundBuffer.insert
  rw [AList.lookup_insert]
  simp only [BoundedOutboundBuffer.new, BoundedOutboundBuffer.buffer, AList.lookup_empty,
    Option.getD_none, List.nil_append, BoundedOutboundBuffer.retain, if_pos hcovers, ok_bind,
    if_true, AList.insert_empty, herase]
  rfl

lemma sendQueued_pong {websocket : RemoteControlWebsocket} {seqId : ℕ}
    (hroom : websocket.state.outboundBuffer.used < channelCapacity)
    (hseq : (websocket.state.nextSeqIdByStream pong.key).getD 1 = seqId) :
    (websocket.sendQueued shortCodec pong).state.outboundBuffer =
        websocket.state.outboundBuffer.insert (pongEnvelope seqId) ∧
      ((websocket.sendQueued shortCodec pong).state.nextSeqIdByStream pong.key).getD 1 =
        min (seqId + 1) u64Max := by
  subst hseq
  unfold sendQueued
  rw [if_pos hroom]
  refine ⟨rfl, ?_⟩
  show (Function.update websocket.state.nextSeqIdByStream pong.key
    (some (min ((websocket.state.nextSeqIdByStream pong.key).getD 1 + 1) u64Max)) pong.key).getD 1 =
      _
  rw [Function.update_self, Option.getD_some]

/-- Rounds leave nothing in the buffer but use up the numbers. -/
theorem run_pongRound (n : ℕ) :
    ∃ websocket, run noCodec shortCodec 0 (List.replicate n pongRound).flatten = .ok websocket ∧
      websocket.state.outboundBuffer = .new ∧
      (websocket.state.nextSeqIdByStream pong.key).getD 1 = min (n + 1) u64Max := by
  induction n with
  | zero => exact ⟨new 0, rfl, rfl, by decide⟩
  | succ n ih =>
    obtain ⟨websocket, hrun, hempty, hnext⟩ := ih
    obtain ⟨hinsert, hnext'⟩ := sendQueued_pong (by rw [hempty]; decide) hnext
    rw [hempty] at hinsert
    have hack : (websocket.sendQueued shortCodec pong).state.outboundBuffer.ack
        pong.key u64Max none = .ok .new := by
      rw [hinsert]
      exact ack_insert_new (pongEnvelope (min (n + 1) u64Max)) (min_le_right _ _)
    have hentry : acknowledgement ackAll = [.acked pong.key u64Max none] := rfl
    obtain ⟨next, hreceive, hnew, hsame, -⟩ := receive_of_ack hentry hack noCodec
      0 0 (fun _ => 0) ⟨0, [], ⟨[], .sent⟩, ⟨[], .sent⟩, ⟨[], .sent⟩⟩
    refine ⟨next, ?_, hnew, ?_⟩
    · unfold run at hrun ⊢
      rw [List.replicate_succ', List.flatten_append, List.foldlM_append, hrun]
      simp only [ok_bind, List.flatten_singleton, pongRound, List.foldlM_cons, List.foldlM_nil,
        step, hreceive]
      rfl
    · rw [hsame, hnext']
      omega

/-- After all numbers were used, two envelopes in the buffer have the same cursor. -/
theorem cursors_repeat :
    ∃ websocket, run noCodec shortCodec 0
        ((List.replicate (u64Max - 1) pongRound).flatten ++ [.queued pong, .queued pong]) =
          .ok websocket ∧
      ¬ (websocket.state.outboundBuffer.buffer pong.key).Pairwise (·.cursor < ·.cursor) := by
  obtain ⟨websocket, hrun, hempty, hnext⟩ := run_pongRound (u64Max - 1)
  have hmax : min (u64Max - 1 + 1) u64Max = u64Max := by decide
  rw [hmax] at hnext
  obtain ⟨hfirst, hnext'⟩ := sendQueued_pong (by rw [hempty]; decide) hnext
  rw [hempty] at hfirst
  have hmax' : min (u64Max + 1) u64Max = u64Max := by decide
  rw [hmax'] at hnext'
  obtain ⟨hsecond, -⟩ := sendQueued_pong (by rw [hfirst]; decide) hnext'
  refine ⟨(websocket.sendQueued shortCodec pong).sendQueued shortCodec pong, ?_, ?_⟩
  · unfold run at hrun ⊢
    rw [List.foldlM_append, hrun]
    rfl
  · rw [hsecond, hfirst, BoundedOutboundBuffer.buffer_insert, BoundedOutboundBuffer.buffer_insert]
    intro hrising
    exact absurd (List.pairwise_pair.mp hrising) (lt_irrefl _)

end RemoteControlWebsocket

end Codex.RemoteControl
