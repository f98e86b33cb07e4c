import Codex.RemoteControl.Segment
import Codex.Lib.AssocMap

/-!
# Reassembled messages are not mixed

Whatever envelopes arrive, a message that is forwarded for chunks has the bytes of the first chunk
of each of its segments, in the order of the segments, all received while one and the same assembly
was held. The calls since an assembly was opened are its life (`Life`).
-/

namespace Codex.RemoteControl

open Codex.Lib

/-! ### Segments -/

/-- The segment of a chunk, with its text. -/
def ClientEnvelope.chunk (envelope : ClientEnvelope) : Option (ℕ × Text) :=
  match envelope.event with
  | .clientMessageChunk segmentId _ _ messageChunkBase64 => some (segmentId, messageChunkBase64)
  | _ => none

/-- The message that a chunk is of. -/
structure MessageKey where
  clientId : ClientId
  streamId : StreamId
  metadata : ClientSegmentMetadata

/-- The envelope is a chunk of this segment of the message. -/
def IsSegment (key : MessageKey) (segmentId : ℕ) (envelope : ClientEnvelope) : Prop :=
  envelope.clientId = key.clientId ∧ envelope.streamId = some key.streamId ∧
    ClientSegmentMetadata.fromEnvelope envelope = some key.metadata ∧
    (envelope.chunk.map Prod.fst) = some segmentId

instance (key : MessageKey) (segmentId : ℕ) : DecidablePred (IsSegment key segmentId) :=
  fun envelope => by unfold IsSegment; infer_instance

/-- The decoded bytes of the first chunk of a segment. -/
def segmentBytes (codec : Codec) (received : List ClientEnvelope) (key : MessageKey)
    (segmentId : ℕ) : Option (List UInt8) := do
  let envelope ← received.find? (IsSegment key segmentId)
  let (_, text) ← envelope.chunk
  codec.decode text

/-- The bytes are those of the first chunk of each segment `0..count-1`, in this order. -/
def AreBytesOf (codec : Codec) (received : List ClientEnvelope) (key : MessageKey) (count : ℕ)
    (bytes : List UInt8) : Prop :=
  ∃ chunks : List (List UInt8),
    (List.range count).map (segmentBytes codec received key) = chunks.map some ∧
      bytes = chunks.flatten

section segments

variable {codec : Codec} {received : List ClientEnvelope} {key : MessageKey}
  {envelope : ClientEnvelope} {segmentId count : ℕ} {bytes chunk : List UInt8} {text : Text}

lemma areBytesOf_zero : AreBytesOf codec received key 0 [] := ⟨[], rfl, rfl⟩

/-- Later envelopes do not change the first chunk of a segment. -/
theorem segmentBytes_append (rest : List ClientEnvelope)
    (h : segmentBytes codec received key segmentId = some bytes) :
    segmentBytes codec (received ++ rest) key segmentId = some bytes := by
  unfold segmentBytes at h ⊢
  rw [List.find?_append]
  cases hfind : received.find? (IsSegment key segmentId) with
  | none => simp [hfind] at h
  | some first =>
    rw [hfind] at h
    exact h

variable (h : AreBytesOf codec received key count bytes)
include h

lemma AreBytesOf.append
    (rest : List ClientEnvelope) : AreBytesOf codec (received ++ rest) key count bytes := by
  obtain ⟨chunks, hchunks, hbytes⟩ := h
  refine ⟨chunks, ?_, hbytes⟩
  rw [← hchunks]
  apply List.map_congr_left
  intro i hi
  have hmem : segmentBytes codec received key i ∈ chunks.map some := by
    rw [← hchunks]
    exact List.mem_map_of_mem hi
  obtain ⟨first, -, hfirst⟩ := List.mem_map.mp hmem
  rw [segmentBytes_append rest hfirst.symm, hfirst]

lemma AreBytesOf.succ
    (hnew : ∀ e ∈ received, ¬ IsSegment key count e) (hsegment : IsSegment key count envelope)
    (htext : envelope.chunk = some (count, text)) (hdecode : codec.decode text = some chunk) :
    AreBytesOf codec (received ++ [envelope]) key (count + 1) (bytes ++ chunk) := by
  obtain ⟨chunks, hchunks, hbytes⟩ := h.append [envelope]
  refine ⟨chunks ++ [chunk], ?_, by simp [hbytes]⟩
  have hfind : received.find? (IsSegment key count) = none := by
    rw [List.find?_eq_none]
    intro e he
    simpa using hnew e he
  have hlast : segmentBytes codec (received ++ [envelope]) key count = some chunk := by
    simp [segmentBytes, List.find?_append, hfind, hsegment, htext, hdecode]
  rw [List.range_succ, List.map_append, List.map_append, hchunks]
  simp [hlast]

end segments

namespace ClientSegmentReassembler

/-! ### The map -/

section map

variable {reassembler : ClientSegmentReassembler} {clientId other : ClientId}
  {streamId : StreamId} {assembly : ClientSegmentAssembly}

@[simp] lemma get_insert_self : (reassembler.insert clientId assembly).get clientId =
    some assembly :=
  AList.lookup_insert _

lemma get_insert_of_ne (h : other ≠ clientId) :
    (reassembler.insert clientId assembly).get other = reassembler.get other :=
  AList.lookup_insert_ne h

@[simp] lemma get_remove_self : (reassembler.remove clientId).get clientId = none :=
  AList.lookup_erase _ _

lemma get_remove_of_ne (h : other ≠ clientId) :
    (reassembler.remove clientId).get other = reassembler.get other :=
  AList.lookup_erase_ne h

lemma len_remove_le : (reassembler.remove clientId).len ≤ reassembler.len := entries_length_erase_le

/-! ### Removing -/

lemma get_removeAssembly_of_ne (h : other ≠ clientId) :
    (reassembler.removeAssembly clientId streamId).get other = reassembler.get other := by
  unfold removeAssembly
  split
  · exact get_remove_of_ne h
  · rfl

lemma get_removeAssembly_self (h : reassembler.get clientId = some assembly)
    (hstream : assembly.streamId = streamId) :
    (reassembler.removeAssembly clientId streamId).get clientId = none := by
  simp [removeAssembly, h, hstream]

lemma get_insert_removeAssembly (hstream : assembly.streamId = streamId) :
    ((reassembler.insert clientId assembly).removeAssembly clientId streamId).get clientId = none :=
  get_removeAssembly_self get_insert_self hstream

/-- What is still there after a removal is what was there, and of another stream. -/
theorem get_of_get_removeAssembly
    (h : (reassembler.removeAssembly clientId streamId).get other = some assembly) :
    reassembler.get other = some assembly ∧ (other = clientId → assembly.streamId ≠ streamId) := by
  by_cases hother : other = clientId
  · subst hother
    cases hget : reassembler.get other with
    | none => simp [removeAssembly, hget] at h
    | some held =>
      by_cases hstream : held.streamId = streamId
      · simp [get_removeAssembly_self hget hstream] at h
      · simp only [removeAssembly, hget, Option.any_some, hstream, decide_false,
          Bool.false_eq_true, if_false] at h
        cases h
        exact ⟨rfl, fun _ => hstream⟩
  · rw [get_removeAssembly_of_ne hother] at h
    exact ⟨h, fun heq => absurd heq hother⟩

lemma len_removeAssembly_le :
    (reassembler.removeAssembly clientId streamId).len ≤ reassembler.len := by
  unfold removeAssembly
  split
  · exact len_remove_le
  · exact le_rfl

lemma get_of_get_remove (h : (reassembler.remove clientId).get other = some assembly) :
    reassembler.get other = some assembly := by
  by_cases hother : other = clientId
  · subst hother
    simp [get_remove_self] at h
  · rwa [get_remove_of_ne hother] at h

/-! ### Eviction -/

variable {rank : ClientId → ℕ}

lemma get_of_get_evictRounds {rounds : ℕ}
    (h : (evictRounds rank rounds reassembler).get clientId = some assembly) :
    reassembler.get clientId = some assembly := by
  induction rounds generalizing reassembler with
  | zero => exact h
  | succ rounds ih =>
    unfold evictRounds at h
    split at h
    · split at h
      · exact get_of_get_remove (ih h)
      · exact h
    · exact h

lemma mem_of_oldestClient
    (h : reassembler.oldestClient rank = some clientId) : clientId ∈ reassembler.assemblies := by
  obtain ⟨entry, hentry, rfl⟩ := Option.map_eq_some_iff.mp h
  exact List.mem_map_of_mem (List.argmin_mem hentry)

lemma oldestClient_isSome (rank : ClientId → ℕ) (h : 0 < reassembler.len) :
    ∃ clientId, reassembler.oldestClient rank = some clientId := by
  cases hmin : reassembler.oldestClient rank with
  | some clientId => exact ⟨clientId, rfl⟩
  | none =>
    rw [oldestClient, Option.map_eq_none_iff, List.argmin_eq_none] at hmin
    simp [len, hmin] at h

lemma len_evictRounds_lt {rounds : ℕ} (h : reassembler.len ≤ rounds) :
    (evictRounds rank rounds reassembler).len < segmentAssemblyMaxCount := by
  induction rounds generalizing reassembler with
  | zero =>
    have hzero : reassembler.len = 0 := Nat.le_zero.mp h
    rw [evictRounds, hzero]
    decide
  | succ rounds ih =>
    unfold evictRounds
    split
    · rename_i hfull
      have hpos : 0 < reassembler.len := lt_of_lt_of_le (by decide) hfull
      obtain ⟨clientId, holdest⟩ := oldestClient_isSome rank hpos
      rw [holdest]
      apply ih
      have hlt : (reassembler.remove clientId).len < reassembler.len :=
        entries_length_erase_lt (mem_of_oldestClient holdest)
      omega
    · rename_i hroom
      exact Nat.lt_of_not_le hroom

end map

end ClientSegmentReassembler

/-! ### One envelope -/

variable (assembly : ClientSegmentAssembly)

/-- The message that an assembly of the client collects. -/
def ClientSegmentAssembly.key (clientId : ClientId) : MessageKey :=
  ⟨clientId, assembly.streamId, assembly.metadata⟩

variable (codec : Codec) (metadata : ClientSegmentMetadata)

lemma ClientSegmentAssembly.update_cases (segmentId : ℕ) (text : Text) (now : ℕ) :
    (assembly.update codec metadata segmentId text now).1 = .drop ∨
    ((assembly.metadata = metadata → segmentId < assembly.nextSegmentId) ∧
      ∃ result, (result = .pending ∨ result = .ignore) ∧
        assembly.update codec metadata segmentId text now = (result, assembly)) ∨
    (assembly.metadata = metadata ∧ segmentId = assembly.nextSegmentId ∧
      ∃ chunk, codec.decode text = some chunk ∧ assembly.update codec metadata segmentId text now =
          ((assembly.append chunk now).updateAfterChunk codec, assembly.append chunk now)) := by
  unfold ClientSegmentAssembly.update
  split_ifs with hstale hmetadata hseen hnext
  · refine .inr (.inl ⟨?_, .ignore, .inr rfl, rfl⟩)
    rintro rfl
    exact absurd hstale (lt_irrefl _)
  · exact .inl rfl
  · exact .inr (.inl ⟨fun _ => hseen, .pending, .inl rfl, rfl⟩)
  · exact .inl rfl
  · have hmetadata : assembly.metadata = metadata := not_not.mp hmetadata
    have hnext : segmentId = assembly.nextSegmentId := not_not.mp hnext
    simp only
    split
    · rename_i chunk hchunk
      have hdecode : codec.decode text = some chunk := (Option.filter_eq_some_iff.mp hchunk).1
      exact .inr (.inr ⟨hmetadata, hnext, chunk, hdecode, rfl⟩)
    · exact .inl rfl

lemma ClientSegmentAssembly.updateAfterChunk_append (chunk : List UInt8) (now : ℕ) :
    (assembly.nextSegmentId + 1 < assembly.metadata.segmentCount ∧
      (assembly.append chunk now).updateAfterChunk codec = .pending) ∨
    (assembly.append chunk now).updateAfterChunk codec = .drop ∨
    (∃ message, assembly.metadata.segmentCount ≤ assembly.nextSegmentId + 1 ∧
      (assembly.raw ++ chunk).length = assembly.metadata.messageSizeBytes ∧
      codec.parse (assembly.raw ++ chunk) = some message ∧
      (assembly.append chunk now).updateAfterChunk codec = .complete message) := by
  unfold ClientSegmentAssembly.updateAfterChunk ClientSegmentAssembly.append
  split_ifs with hmore hsize
  · exact .inl ⟨hmore, rfl⟩
  · exact .inr (.inl rfl)
  · cases hparse : codec.parse (assembly.raw ++ chunk) with
    | none => exact .inr (.inl rfl)
    | some message => exact .inr (.inr ⟨message, not_lt.mp hmore, not_not.mp hsize, rfl, rfl⟩)

lemma ClientSegmentAssembly.streamId_update (segmentId : ℕ) (text : Text) (now : ℕ) :
    (assembly.update codec metadata segmentId text now).2.streamId = assembly.streamId := by
  unfold ClientSegmentAssembly.update
  split_ifs
  · rfl
  · rfl
  · rfl
  · rfl
  · simp only
    split <;> rfl

namespace ClientSegmentReassembler

/-- An assembly of the client's stream is held. -/
def Holds (reassembler : ClientSegmentReassembler) (clientId : ClientId) (streamId : StreamId) :
    Prop :=
  ∃ assembly, reassembler.get clientId = some assembly ∧ assembly.streamId = streamId

/-- The envelope is the chunk that the client's assembly waits for, or the first of a new one. -/
structure Accepts (reassembler : ClientSegmentReassembler) (codec : Codec)
    (envelope : ClientEnvelope) (assembly : ClientSegmentAssembly) (chunk : List UInt8) : Prop where
  met : reassembler.get envelope.clientId = some assembly ∨
    ¬ reassembler.Holds envelope.clientId assembly.streamId ∧ assembly.raw = [] ∧
      assembly.nextSegmentId = 0
  segment : IsSegment (assembly.key envelope.clientId) assembly.nextSegmentId envelope
  decoded : ∃ text, envelope.chunk = some (assembly.nextSegmentId, text) ∧
    codec.decode text = some chunk
  counted : assembly.nextSegmentId < assembly.metadata.segmentCount

section observe

variable {reassembler : ClientSegmentReassembler} {codec : Codec} {envelope : ClientEnvelope}
  {clientId other : ClientId} {streamId : StreamId} {metadata : ClientSegmentMetadata}
  {assembly : ClientSegmentAssembly} {now segmentId : ℕ} {rank : ClientId → ℕ} {text : Text}

lemma get_openAssembly_self (reassembler : ClientSegmentReassembler) (clientId : ClientId)
    (streamId : StreamId) (metadata : ClientSegmentMetadata) (now : ℕ) (rank : ClientId → ℕ) :
    ∃ assembly, (reassembler.openAssembly clientId streamId metadata now rank).get clientId =
        some assembly ∧ assembly.streamId = streamId ∧
      (reassembler.get clientId = some assembly ∨
        ¬ reassembler.Holds clientId streamId ∧ assembly = .new streamId metadata now) := by
  unfold openAssembly
  cases hget : reassembler.get clientId with
  | none =>
    refine ⟨.new streamId metadata now, get_insert_self, rfl, .inr ⟨?_, rfl⟩⟩
    rintro ⟨held, hheld, -⟩
    simp [hget] at hheld
  | some held =>
    by_cases hstream : held.streamId = streamId
    · simp only [hstream, ne_eq, not_true_eq_false, if_false]
      exact ⟨held, hget, hstream, .inl rfl⟩
    · simp only [ne_eq, hstream, not_false_eq_true, if_true]
      refine ⟨.new streamId metadata now, get_insert_self, rfl, .inr ⟨?_, rfl⟩⟩
      rintro ⟨held', hheld', hstream'⟩
      rw [hget] at hheld'
      cases hheld'
      exact hstream hstream'

lemma get_of_get_openAssembly (hother : other ≠ clientId)
    (h : (reassembler.openAssembly clientId streamId metadata now rank).get other =
      some assembly) : reassembler.get other = some assembly := by
  unfold openAssembly at h
  split at h
  · split at h
    · rwa [get_insert_of_ne hother] at h
    · exact h
  · rw [get_insert_of_ne hother] at h
    exact get_of_get_evictRounds h

/-- What an envelope does to the state, up to the update of an assembly. -/
theorem observe_cases (reassembler : ClientSegmentReassembler) (codec : Codec)
    (envelope : ClientEnvelope) (now : ℕ) (rank : ClientId → ℕ) :
    (envelope.chunk = none ∧
      reassembler.observe codec envelope now rank = (.forward envelope, reassembler)) ∨
    ((∀ assembly, reassembler.get envelope.clientId = some assembly →
        ∀ i, assembly.nextSegmentId ≤ i → ¬ IsSegment (assembly.key envelope.clientId) i envelope) ∧
      reassembler.observe codec envelope now rank = (.dropped, reassembler)) ∨
    (∃ streamId, envelope.streamId = some streamId ∧ reassembler.observe codec envelope now rank =
        (.dropped, reassembler.removeAssembly envelope.clientId streamId)) ∨
    (∃ streamId metadata segmentId text, envelope.streamId = some streamId ∧
      ClientSegmentMetadata.fromEnvelope envelope = some metadata ∧
      envelope.chunk = some (segmentId, text) ∧ segmentId < metadata.segmentCount ∧
      reassembler.observe codec envelope now rank =
        reassembler.observeChunk codec envelope streamId metadata segmentId text now rank) := by
  obtain ⟨event, clientId, streamId, seqId⟩ := envelope
  cases event with
  | clientMessageChunk segmentId segmentCount size text =>
    refine .inr ?_
    cases seqId with
    | none =>
      refine .inl ⟨?_, rfl⟩
      intro assembly _ i _ hsegment
      exact absurd hsegment.2.2.1 (by simp [ClientSegmentMetadata.fromEnvelope])
    | some seqId =>
      cases streamId with
      | none =>
        refine .inl ⟨?_, rfl⟩
        intro assembly _ i _ hsegment
        exact absurd hsegment.2.1 (by simp)
      | some streamId =>
        unfold observe
        simp only [ClientSegmentMetadata.fromEnvelope, Option.map_some]
        split_ifs with hignore hinvalid
        · refine .inl ⟨?_, rfl⟩
          rintro assembly hget i hi ⟨-, hstream, hmetadata, hchunk⟩
          have hstream : streamId = assembly.streamId := Option.some.inj hstream
          have hmetadata : (⟨seqId, segmentCount, size⟩ : ClientSegmentMetadata) =
              assembly.metadata := Option.some.inj hmetadata
          have hchunk : segmentId = i := Option.some.inj hchunk
          simp only [shouldIgnoreChunk, hget, Option.any_some, hstream, ← hmetadata,
            decide_eq_true_eq] at hignore
          omega
        · exact .inr (.inl ⟨streamId, rfl, rfl⟩)
        · refine .inr (.inr ⟨streamId, _, segmentId, text, rfl, rfl, rfl, ?_, rfl⟩)
          simp only [isInvalidChunk, decide_eq_true_eq] at hinvalid
          show segmentId < segmentCount
          omega
  | clientMessage _ => exact .inl ⟨rfl, rfl⟩
  | ack _ => exact .inl ⟨rfl, rfl⟩
  | ping => exact .inl ⟨rfl, rfl⟩
  | clientClosed => exact .inl ⟨rfl, rfl⟩

/-- A valid chunk is dropped with its assembly, or leaves the assembly alone, or is appended. -/
theorem observeChunk_cases (reassembler : ClientSegmentReassembler) (codec : Codec)
    (now : ℕ) (rank : ClientId → ℕ) (hstream : envelope.streamId = some streamId)
    (hmetadata : ClientSegmentMetadata.fromEnvelope envelope = some metadata)
    (hchunk : envelope.chunk = some (segmentId, text))
    (hcounted : segmentId < metadata.segmentCount) :
    let opened := reassembler.openAssembly envelope.clientId streamId metadata now rank
    let observed :=
      reassembler.observeChunk codec envelope streamId metadata segmentId text now rank
    (∃ assembly, assembly.streamId = streamId ∧ observed =
      (.dropped, (opened.insert envelope.clientId assembly).removeAssembly envelope.clientId
        streamId)) ∨
    (∃ assembly observation, (observation = .pending ∨ observation = .dropped) ∧
      reassembler.get envelope.clientId = some assembly ∧
      (∀ i, assembly.nextSegmentId ≤ i → ¬ IsSegment (assembly.key envelope.clientId) i envelope) ∧
      observed = (observation, opened.insert envelope.clientId assembly)) ∨
    (∃ assembly chunk, reassembler.Accepts codec envelope assembly chunk ∧
      assembly.nextSegmentId + 1 < assembly.metadata.segmentCount ∧
      observed = (.pending, opened.insert envelope.clientId (assembly.append chunk now))) ∨
    (∃ assembly chunk message, reassembler.Accepts codec envelope assembly chunk ∧
      assembly.streamId = streamId ∧
      assembly.nextSegmentId + 1 = assembly.metadata.segmentCount ∧
      (assembly.raw ++ chunk).length = assembly.metadata.messageSizeBytes ∧
      codec.parse (assembly.raw ++ chunk) = some message ∧
      observed = (.forward { envelope with event := .clientMessage message },
        (opened.insert envelope.clientId (assembly.append chunk now)).removeAssembly
          envelope.clientId streamId)) := by
  obtain ⟨assembly, hget, hsame, hmet⟩ :=
    get_openAssembly_self reassembler envelope.clientId streamId metadata now rank
  intro opened observed
  rcases assembly.update_cases codec metadata segmentId text now with
    hdrop | ⟨hseen, result, hresult, hupdate⟩ | ⟨hequal, hnext, chunk, hdecode, hupdate⟩
  · refine .inl ⟨(assembly.update codec metadata segmentId text now).2, ?_, ?_⟩
    · rw [ClientSegmentAssembly.streamId_update]
      exact hsame
    · simp only [observed, observeChunk, hget, hdrop]
      rfl
  · have hheld : reassembler.get envelope.clientId = some assembly := by
      rcases hmet with hheld | ⟨-, rfl⟩
      · exact hheld
      · exact absurd (hseen rfl) (Nat.not_lt_zero _)
    have hnone : ∀ i, assembly.nextSegmentId ≤ i →
        ¬ IsSegment (assembly.key envelope.clientId) i envelope := by
      rintro i hi ⟨-, -, hmetadata', hchunk'⟩
      rw [hmetadata] at hmetadata'
      rw [hchunk] at hchunk'
      have hid : segmentId = i := Option.some.inj hchunk'
      have hlt := hseen (Option.some.inj hmetadata').symm
      omega
    rcases hresult with rfl | rfl
    · refine .inr (.inl ⟨assembly, .pending, .inl rfl, hheld, hnone, ?_⟩)
      simp only [observed, observeChunk, hget, hupdate]
      rfl
    · refine .inr (.inl ⟨assembly, .dropped, .inr rfl, hheld, hnone, ?_⟩)
      simp only [observed, observeChunk, hget, hupdate]
      rfl
  · subst hequal hnext
    have haccepts : reassembler.Accepts codec envelope assembly chunk := by
      refine ⟨?_, ⟨rfl, ?_, hmetadata, ?_⟩, ⟨text, hchunk, hdecode⟩, hcounted⟩
      · rcases hmet with hheld | ⟨hnot, hnew⟩
        · exact .inl hheld
        · rw [hsame]
          exact .inr ⟨hnot, by rw [hnew]; exact ⟨rfl, rfl⟩⟩
      · rw [hstream, ← hsame]
        rfl
      · rw [hchunk]
        rfl
    rcases assembly.updateAfterChunk_append codec chunk now with
      ⟨hmore, hafter⟩ | hafter | ⟨message, hlast, hsize, hparse, hafter⟩
    · refine .inr (.inr (.inl ⟨assembly, chunk, haccepts, hmore, ?_⟩))
      simp only [observed, observeChunk, hget, hupdate, hafter]
      rfl
    · refine .inl ⟨assembly.append chunk now, hsame, ?_⟩
      simp only [observed, observeChunk, hget, hupdate, hafter]
      rfl
    · refine .inr (.inr (.inr ⟨assembly, chunk, message, haccepts, hsame, by omega, hsize, hparse,
        ?_⟩))
      simp only [observed, observeChunk, hget, hupdate, hafter]
      rfl

lemma get_of_get_observe (hother : other ≠ envelope.clientId)
    (h : (reassembler.observe codec envelope now rank).2.get other = some assembly) :
    reassembler.get other = some assembly := by
  rcases reassembler.observe_cases codec envelope now rank with
    ⟨-, heq⟩ | ⟨-, heq⟩ | ⟨streamId, -, heq⟩ | ⟨streamId, metadata, segmentId, text, -, -, -, -,
      heq⟩
  · rwa [heq] at h
  · rwa [heq] at h
  · rw [heq] at h
    exact (get_of_get_removeAssembly h).1
  · rw [heq, observeChunk] at h
    apply get_of_get_openAssembly hother
    split at h
    · exact h
    simp only at h
    split at h
    · rwa [get_insert_of_ne hother] at h
    · rwa [get_insert_of_ne hother] at h
    · rwa [get_removeAssembly_of_ne hother, get_insert_of_ne hother] at h
    · rwa [get_removeAssembly_of_ne hother, get_insert_of_ne hother] at h

/-- What an envelope leaves of a client's assembly. -/
theorem get_observe (h : (reassembler.observe codec envelope now rank).2.get other =
    some assembly) :
    (reassembler.get other = some assembly ∧
      ∀ i, assembly.nextSegmentId ≤ i → ¬ IsSegment (assembly.key other) i envelope) ∨
    (other = envelope.clientId ∧ ∃ before chunk, reassembler.Accepts codec envelope before chunk ∧
      before.nextSegmentId + 1 < before.metadata.segmentCount ∧
      assembly = before.append chunk now) := by
  by_cases hother : other = envelope.clientId
  · subst hother
    rcases reassembler.observe_cases codec envelope now rank with
      ⟨hchunk, heq⟩ | ⟨hnone, heq⟩ | ⟨streamId, hstream, heq⟩ |
      ⟨streamId, metadata, segmentId, text, hstream, hmetadata, hchunk, hcounted, heq⟩
    · rw [heq] at h
      refine .inl ⟨h, ?_⟩
      rintro i - ⟨-, -, -, hsegment⟩
      simp [hchunk] at hsegment
    · rw [heq] at h
      exact .inl ⟨h, hnone assembly h⟩
    · rw [heq] at h
      obtain ⟨hget, hdiffers⟩ := get_of_get_removeAssembly h
      refine .inl ⟨hget, ?_⟩
      rintro i - ⟨-, hstream', -⟩
      rw [hstream] at hstream'
      exact hdiffers rfl (Option.some.inj hstream').symm
    · rw [heq] at h
      rcases reassembler.observeChunk_cases codec now rank hstream hmetadata hchunk hcounted with
        ⟨held, hsame, hobserved⟩ | ⟨held, observation, -, hget, hnone, hobserved⟩ |
        ⟨held, chunk, haccepts, hmore, hobserved⟩ |
        ⟨held, chunk, message, -, hsame, -, -, -, hobserved⟩
      · simp [hobserved, get_insert_removeAssembly hsame] at h
      · rw [hobserved, get_insert_self] at h
        cases h
        exact .inl ⟨hget, hnone⟩
      · rw [hobserved, get_insert_self] at h
        exact .inr ⟨rfl, held, chunk, haccepts, hmore, (Option.some.inj h).symm⟩
      · have hkept : (held.append chunk now).streamId = streamId := hsame
        simp [hobserved, get_insert_removeAssembly hkept] at h
  · exact .inl ⟨get_of_get_observe hother h, fun i _ hsegment => hother hsegment.1.symm⟩

/-- A message is forwarded for a chunk that was the last to wait for. -/
theorem observe_forward {out : ClientEnvelope} (hchunk : envelope.chunk ≠ none)
    (h : (reassembler.observe codec envelope now rank).1 = .forward out) :
    ∃ assembly chunk message, reassembler.Accepts codec envelope assembly chunk ∧
      assembly.nextSegmentId + 1 = assembly.metadata.segmentCount ∧
      (assembly.raw ++ chunk).length = assembly.metadata.messageSizeBytes ∧
      codec.parse (assembly.raw ++ chunk) = some message ∧
      out = { envelope with event := .clientMessage message } := by
  rcases reassembler.observe_cases codec envelope now rank with
    ⟨hnone, -⟩ | ⟨-, heq⟩ | ⟨streamId, -, heq⟩ |
    ⟨streamId, metadata, segmentId, text, hstream, hmetadata, hsegment, hcounted, heq⟩
  · exact absurd hnone hchunk
  · simp [heq] at h
  · simp [heq] at h
  · rw [heq] at h
    rcases reassembler.observeChunk_cases codec now rank hstream hmetadata hsegment hcounted with
      ⟨held, -, hobserved⟩ | ⟨held, observation, hobservation, -, -, hobserved⟩ |
      ⟨held, chunk, -, -, hobserved⟩ |
      ⟨held, chunk, message, haccepts, -, hlast, hsize, hparse, hobserved⟩
    · simp [hobserved] at h
    · rw [hobserved] at h
      rcases hobservation with rfl | rfl
      · cases h
      · cases h
    · simp [hobserved] at h
    · rw [hobserved] at h
      have hout := (ClientSegmentObservation.forward.inj h).symm
      exact ⟨held, chunk, message, haccepts, hlast, hsize, hparse, hout⟩

/-! ### The number of assemblies -/

lemma len_insert_of_get {held : ClientSegmentAssembly}
    (h : reassembler.get clientId = some held) (assembly : ClientSegmentAssembly) :
    (reassembler.insert clientId assembly).len = reassembler.len := by
  apply entries_length_insert_of_mem
  exact AList.lookup_isSome.mp (Option.isSome_of_eq_some h)

variable (h : reassembler.len ≤ segmentAssemblyMaxCount)
include h

lemma len_openAssembly_le :
    (reassembler.openAssembly clientId streamId metadata now rank).len ≤
      segmentAssemblyMaxCount := by
  unfold openAssembly
  split
  · rename_i held hget
    split
    · rw [len_insert_of_get hget]
      exact h
    · exact h
  · refine le_trans entries_length_insert_le ?_
    exact len_evictRounds_lt le_rfl

lemma len_observe_le :
    (reassembler.observe codec envelope now rank).2.len ≤ segmentAssemblyMaxCount := by
  rcases reassembler.observe_cases codec envelope now rank with
    ⟨-, heq⟩ | ⟨-, heq⟩ | ⟨streamId, -, heq⟩ | ⟨streamId, metadata, segmentId, text, -, -, -, -,
      heq⟩
  · rw [heq]
    exact h
  · rw [heq]
    exact h
  · rw [heq]
    exact le_trans len_removeAssembly_le h
  · rw [heq, observeChunk]
    obtain ⟨held, hget, -, -⟩ :=
      get_openAssembly_self reassembler envelope.clientId streamId metadata now rank
    have hinsert := fun assembly =>
      (len_insert_of_get hget assembly).trans_le (len_openAssembly_le h)
    simp only [hget]
    split
    · exact hinsert _
    · exact hinsert _
    · exact len_removeAssembly_le.trans (hinsert _)
    · exact len_removeAssembly_le.trans (hinsert _)

end observe

/-! ### Lives of assemblies -/

/-- The envelope of a call. -/
def Call.envelope : Call → Option ClientEnvelope
  | .observe envelope _ _ => some envelope
  | _ => none

/-- The envelopes of calls. -/
def received (calls : List Call) : List ClientEnvelope := calls.filterMap Call.envelope

/-- The last of the calls, `life`, are those since an assembly of the stream was opened, and one was
held all the time. -/
def HeldSince (codec : Codec) (calls life : List Call) (clientId : ClientId)
    (streamId : StreamId) : Prop :=
  ∃ before, calls = before ++ life ∧ ¬ (run codec before).Holds clientId streamId ∧
    ∀ first, first <+: life → first ≠ [] → (run codec (before ++ first)).Holds clientId streamId

/-- What an assembly has collected in its life. -/
structure Life (codec : Codec) (calls life : List Call) (clientId : ClientId)
    (assembly : ClientSegmentAssembly) : Prop where
  since : HeldSince codec calls life clientId assembly.streamId
  bytes : AreBytesOf codec (received life) (assembly.key clientId) assembly.nextSegmentId
    assembly.raw
  unseen : ∀ envelope ∈ received life, ∀ i, assembly.nextSegmentId ≤ i →
    ¬ IsSegment (assembly.key clientId) i envelope

section life

variable {codec : Codec} {calls life : List Call} {call : Call} {clientId : ClientId}
  {streamId : StreamId} {assembly : ClientSegmentAssembly} {envelope : ClientEnvelope}

lemma run_append (codec : Codec) (calls : List Call) (call : Call) :
    run codec (calls ++ [call]) = step codec (run codec calls) call := by
  simp [run]

lemma received_append (calls : List Call) (call : Call) :
    received (calls ++ [call]) = received calls ++ call.envelope.toList := by
  cases hcall : call.envelope <;> simp [received, hcall]

lemma HeldSince.nil (h : ¬ (run codec calls).Holds clientId streamId) :
    HeldSince codec calls [] clientId streamId := by
  refine ⟨calls, by simp, h, ?_⟩
  intro first hfirst hne
  exact absurd (List.prefix_nil.mp hfirst) hne

lemma HeldSince.append (h : HeldSince codec calls life clientId streamId)
    (hnow : (run codec (calls ++ [call])).Holds clientId streamId) :
    HeldSince codec (calls ++ [call]) (life ++ [call]) clientId streamId := by
  obtain ⟨before, rfl, hopened, hheld⟩ := h
  refine ⟨before, by simp, hopened, ?_⟩
  intro first hfirst hne
  rcases List.prefix_concat_iff.mp hfirst with rfl | hfirst
  · rw [← List.append_assoc]
    exact hnow
  · exact hheld first hfirst hne

lemma get_step {reassembler : ClientSegmentReassembler}
    (h : (step codec reassembler call).get clientId = some assembly) :
    (reassembler.get clientId = some assembly ∧ ∀ envelope ∈ call.envelope,
      ∀ i, assembly.nextSegmentId ≤ i → ¬ IsSegment (assembly.key clientId) i envelope) ∨
    (∃ envelope before chunk now, call.envelope = some envelope ∧
      clientId = envelope.clientId ∧ reassembler.Accepts codec envelope before chunk ∧
      assembly = before.append chunk now) := by
  cases call with
  | observe envelope now rank =>
    rcases get_observe h with ⟨hget, hnone⟩ | ⟨hclient, before, chunk, haccepts, -, happend⟩
    · refine .inl ⟨hget, ?_⟩
      intro other hother
      cases hother
      exact hnone
    · exact .inr ⟨envelope, before, chunk, now, rfl, hclient, haccepts, happend⟩
  | invalidateStream other streamId =>
    exact .inl ⟨(get_of_get_removeAssembly h).1, fun envelope henvelope => nomatch henvelope⟩
  | invalidateClient other =>
    exact .inl ⟨get_of_get_remove h, fun envelope henvelope => nomatch henvelope⟩

/-- The assembly that a chunk meets has a life, perhaps one that only begins. -/
theorem life_of_accepts {chunk : List UInt8}
    (hlives : ∀ clientId assembly, (run codec calls).get clientId = some assembly →
      ∃ life, Life codec calls life clientId assembly)
    (h : (run codec calls).Accepts codec envelope assembly chunk) :
    ∃ life, Life codec calls life envelope.clientId assembly := by
  rcases h.met with hheld | ⟨hnot, hraw, hnext⟩
  · exact hlives envelope.clientId assembly hheld
  · refine ⟨[], .nil hnot, ?_, fun envelope henvelope => absurd henvelope List.not_mem_nil⟩
    rw [hraw, hnext]
    exact areBytesOf_zero

lemma Life.areBytesOf_append {chunk : List UInt8}
    (h : Life codec calls life envelope.clientId assembly)
    (haccepts : (run codec calls).Accepts codec envelope assembly chunk) :
    AreBytesOf codec (received life ++ [envelope]) (assembly.key envelope.clientId)
      (assembly.nextSegmentId + 1) (assembly.raw ++ chunk) := by
  obtain ⟨text, htext, hdecode⟩ := haccepts.decoded
  exact h.bytes.succ (fun e he => h.unseen e he _ le_rfl) haccepts.segment htext hdecode

lemma life_of_get (codec : Codec) (calls : List Call) :
    ∀ clientId assembly, (run codec calls).get clientId = some assembly →
      ∃ life, Life codec calls life clientId assembly := by
  induction calls using List.reverseRecOn with
  | nil =>
    intro clientId assembly hget
    exact absurd hget (by simp [run, new, get])
  | append_singleton calls call ih =>
    intro clientId assembly hget
    have hholds : (run codec (calls ++ [call])).Holds clientId assembly.streamId :=
      ⟨assembly, hget, rfl⟩
    rw [run_append] at hget
    rcases get_step hget with ⟨hbefore, hnone⟩ |
      ⟨envelope, before, chunk, now, hcall, rfl, haccepts, rfl⟩
    · obtain ⟨life, hlife⟩ := ih clientId assembly hbefore
      refine ⟨life ++ [call], hlife.since.append hholds, ?_, ?_⟩
      · rw [received_append]
        exact hlife.bytes.append _
      · intro envelope henvelope
        rw [received_append, List.mem_append] at henvelope
        rcases henvelope with hold | hnew
        · exact hlife.unseen envelope hold
        · exact hnone envelope (Option.mem_toList.mp hnew)
    · obtain ⟨life, hlife⟩ := life_of_accepts ih haccepts
      refine ⟨life ++ [call], hlife.since.append hholds, ?_, ?_⟩
      · rw [received_append, hcall]
        exact hlife.areBytesOf_append haccepts
      · intro other hother i hi
        have hle : before.nextSegmentId + 1 ≤ i := hi
        rw [received_append, hcall, List.mem_append, Option.toList_some,
          List.mem_singleton] at hother
        rcases hother with hold | rfl
        · exact hlife.unseen other hold i (by omega)
        · rintro ⟨-, -, -, hsegment⟩
          rw [haccepts.segment.2.2.2] at hsegment
          have hequal := Option.some.inj hsegment
          omega

lemma len_run_le (codec : Codec) (calls : List Call) :
    (run codec calls).len ≤ segmentAssemblyMaxCount := by
  have hnew : new.len ≤ segmentAssemblyMaxCount := Nat.zero_le _
  refine List.foldlRecOn (motive := fun reassembler => reassembler.len ≤ segmentAssemblyMaxCount)
    calls (step codec) hnew ?_
  intro reassembler h call _
  cases call with
  | observe envelope now rank => exact len_observe_le h
  | invalidateStream clientId streamId => exact len_removeAssembly_le.trans h
  | invalidateClient clientId => exact len_remove_le.trans h

end life

/-! ### Forwarded messages -/

/-- The message that is forwarded for a chunk after the calls: its bytes are those of the first
chunk of each of its segments in the life of one assembly, the last chunk included. -/
def Reassembled (codec : Codec) (calls : List Call) (envelope out : ClientEnvelope) : Prop :=
  ∃ key life bytes message, envelope.clientId = key.clientId ∧
    envelope.streamId = some key.streamId ∧
    ClientSegmentMetadata.fromEnvelope envelope = some key.metadata ∧
    HeldSince codec calls life key.clientId key.streamId ∧
    AreBytesOf codec (received life ++ [envelope]) key key.metadata.segmentCount bytes ∧
    bytes.length = key.metadata.messageSizeBytes ∧
    codec.parse bytes = some message ∧
    out = { envelope with event := .clientMessage message }

lemma reassembled_of_forward (codec : Codec) (calls : List Call) {envelope out : ClientEnvelope}
    {now : ℕ} {rank : ClientId → ℕ} (hchunk : envelope.chunk ≠ none)
    (hforward : ((run codec calls).observe codec envelope now rank).1 = .forward out) :
    Reassembled codec calls envelope out := by
  obtain ⟨assembly, chunk, message, haccepts, hlast, hsize, hparse, rfl⟩ :=
    observe_forward hchunk hforward
  obtain ⟨life, hlife⟩ := life_of_accepts (life_of_get codec calls) haccepts
  obtain ⟨-, hstream, hmetadata, -⟩ := haccepts.segment
  have hbytes := hlife.areBytesOf_append haccepts
  rw [hlast] at hbytes
  exact ⟨assembly.key envelope.clientId, life, assembly.raw ++ chunk, message, rfl, hstream,
    hmetadata, hlife.since, hbytes, hsize, hparse, rfl⟩

/-- In every run messages are not mixed, and at most 128 assemblies are held. -/
theorem reassembled_run (codec : Codec) (calls : List Call) :
    (run codec calls).len ≤ segmentAssemblyMaxCount ∧
      ∀ envelope now rank out, envelope.chunk ≠ none →
        ((run codec calls).observe codec envelope now rank).1 = .forward out →
        Reassembled codec calls envelope out :=
  ⟨len_run_le codec calls, fun _ _ _ _ hchunk hforward =>
    reassembled_of_forward codec calls hchunk hforward⟩

/-- The bytes of an ASCII text. -/
def asciiBytes (text : Text) : List UInt8 := text.map fun c => UInt8.ofNat c.toNat

/-- A codec that knows the notification `initialized` and its two halves. -/
def initializedCodec : Codec where
  decode text :=
    if text = "eyJtZXRob2QiOiJp".toList then some (asciiBytes "\x7b\"method\":\"i".toList)
    else if text = "bml0aWFsaXplZCJ9".toList then some (asciiBytes "nitialized\"\x7d".toList)
    else none
  parse bytes :=
    if bytes = asciiBytes "\x7b\"method\":\"initialized\"\x7d".toList then
      some (.notification "initialized".toList)
    else none

/-- One of the two halves, from the stream `s` of the client `c`. -/
def initializedChunk (segmentId : ℕ) (text : Text) : ClientEnvelope :=
  ⟨.clientMessageChunk segmentId 2 24 text, "c".toList, some "s".toList, some 7⟩

theorem reassembled_run_initialized :
    let first := initializedChunk 0 "eyJtZXRob2QiOiJp".toList
    let last := initializedChunk 1 "bml0aWFsaXplZCJ9".toList
    let calls := [Call.observe first 1 (fun _ => 0), .observe first 2 (fun _ => 0)]
    let out := { last with event := .clientMessage (.notification "initialized".toList) }
    ((run initializedCodec calls).observe initializedCodec last 3 (fun _ => 0)).1 = .forward out ∧
      Reassembled initializedCodec calls last out := by
  intro first last calls out
  have hforward : ((run initializedCodec calls).observe initializedCodec last 3 (fun _ => 0)).1 =
      .forward out := by decide +kernel
  exact ⟨hforward, (reassembled_run initializedCodec calls).2 last 3 _ out (by decide) hforward⟩

end ClientSegmentReassembler

end Codex.RemoteControl
