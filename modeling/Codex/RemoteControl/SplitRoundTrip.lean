import Codex.Lib.Base64
import Codex.RemoteControl.Abandoned
import Codex.RemoteControl.ServerSegments
import Mathlib.Algebra.Order.BigOperators.Group.List

/-!
# What is split for transport is put together again

The chunks that a server message is split into are numbered from zero, fit into websocket messages,
and decode to the serialised message; so a reassembler that gets them as chunks of a client forwards
the message.

* `segmentsFit_first`: where its first round succeeds;
* `split_lossless`: **splitting is lossless and bounded, and drops no message that fits**.
-/

namespace Codex.RemoteControl

open Codex.Lib ClientSegmentReassembler

/-! ### The chunks of a slice -/

section chunks

variable {raw chunk : List UInt8} {chunkSize segmentId : ℕ}

lemma length_chunksOf (chunkSize : ℕ) (raw : List UInt8) :
    (chunksOf chunkSize raw).length = raw.length ⌈/⌉ chunkSize := by
  rw [chunksOf, List.length_map, List.length_range]

lemma flatten_pieces (chunkSize count : ℕ) (raw : List UInt8) :
    ((List.range count).map fun i => (raw.drop (i * chunkSize)).take chunkSize).flatten =
      raw.take (count * chunkSize) := by
  induction count with
  | zero => rw [Nat.zero_mul, List.take_zero, List.range_zero, List.map_nil, List.flatten_nil]
  | succ count ih =>
    rw [List.range_succ, List.map_append, List.flatten_append, ih, List.map_singleton,
      List.flatten_singleton, Nat.succ_mul, List.take_add]

lemma flatten_chunksOf (h : 0 < chunkSize) (raw : List UInt8) :
    (chunksOf chunkSize raw).flatten = raw := by
  rw [chunksOf, flatten_pieces]
  apply List.take_of_length_le
  rw [Nat.mul_comm]
  exact (ceilDiv_le_iff_le_mul h).mp le_rfl

lemma length_of_mem_chunksOf (h : chunk ∈ chunksOf chunkSize raw) : chunk.length ≤ chunkSize := by
  obtain ⟨i, -, rfl⟩ := List.mem_map.mp h
  exact List.length_take_le _ _

lemma ne_nil_of_mem_chunksOf (hsize : 0 < chunkSize) (h : chunk ∈ chunksOf chunkSize raw) :
    chunk ≠ [] := by
  obtain ⟨i, hi, rfl⟩ := List.mem_map.mp h
  rintro hnil
  have hlt : ¬ raw.length ⌈/⌉ chunkSize ≤ i := not_le.mpr (List.mem_range.mp hi)
  rw [ceilDiv_le_iff_le_mul hsize, not_le, Nat.mul_comm] at hlt
  have hlength := congrArg List.length hnil
  rw [List.length_take, List.length_drop, List.length_nil] at hlength
  omega

end chunks

/-! ### The search for a chunk size -/

section search

variable {codec : ServerCodec} {envelope : ServerEnvelope} {raw : List UInt8}
  {parts : List ServerEnvelope} {chunkSize segmentCount : ℕ}

/-- The envelope of a chunk fits into a websocket message. -/
def ServerCodec.Fits (codec : ServerCodec) (part : ServerEnvelope) : Prop :=
  ∃ len, codec.serializedLen part = some len ∧ len ≤ segmentMaxBytes

lemma serializedChunkLen_eq_some {segmentId size len : ℕ} {chunk : List UInt8} :
    codec.serializedChunkLen envelope segmentId segmentCount size chunk = some len ↔
      segmentCount ≤ segmentCountMax ∧
        codec.serializedLen (codec.chunkEnvelope envelope segmentCount size (chunk, segmentId)) =
          some len := by
  unfold ServerCodec.serializedChunkLen ServerCodec.buildChunkEnvelope
  split_ifs with hmany
  · exact ⟨nofun, fun h => absurd h.1 (not_le.mpr hmany)⟩
  · exact ⟨fun h => ⟨not_lt.mp hmany, h⟩, fun h => h.2⟩

lemma segmentsFit_iff : codec.segmentsFit envelope raw chunkSize = true ↔
    ∀ chunk ∈ (chunksOf chunkSize raw).zipIdx, raw.length ⌈/⌉ chunkSize ≤ segmentCountMax ∧
      codec.Fits (codec.chunkEnvelope envelope (raw.length ⌈/⌉ chunkSize) raw.length chunk) := by
  unfold ServerCodec.segmentsFit ServerCodec.Fits
  rw [List.all_eq_true]
  refine forall₂_congr fun chunk _ => ?_
  rw [Option.any_eq_true]
  constructor
  · rintro ⟨len, hlen, hmax⟩
    obtain ⟨hcount, hserialized⟩ := serializedChunkLen_eq_some.mp hlen
    exact ⟨hcount, len, hserialized, of_decide_eq_true hmax⟩
  · rintro ⟨hcount, len, hserialized, hmax⟩
    exact ⟨len, serializedChunkLen_eq_some.mpr ⟨hcount, hserialized⟩, decide_eq_true hmax⟩

lemma buildChunks_of_segmentsFit (h : codec.segmentsFit envelope raw chunkSize = true) :
    raw.length ⌈/⌉ chunkSize ≤ segmentCountMax ∧
      codec.buildChunks envelope raw chunkSize = some ((chunksOf chunkSize raw).zipIdx.map
        (codec.chunkEnvelope envelope (raw.length ⌈/⌉ chunkSize) raw.length)) := by
  have hcount : raw.length ⌈/⌉ chunkSize ≤ segmentCountMax := by
    rw [← length_chunksOf]
    cases hchunks : chunksOf chunkSize raw with
    | nil => exact Nat.zero_le _
    | cons chunk rest =>
      have hfits := segmentsFit_iff.mp h (chunk, 0) (by simp [hchunks])
      rw [← hchunks, length_chunksOf]
      exact hfits.1
  refine ⟨hcount, ?_⟩
  unfold ServerCodec.buildChunks ServerCodec.buildChunkEnvelope
  simp only [if_neg (not_lt.mpr hcount)]
  exact List.mapM_pure

/-- The search ends with chunks that fit, or with none. -/
theorem splitLoop_cases (codec : ServerCodec) (envelope : ServerEnvelope) (raw : List UInt8)
    (segmentCount : ℕ) :
    codec.splitLoop envelope raw segmentCount = some [] ∨
      ∃ chunkSize, 0 < chunkSize ∧ codec.segmentsFit envelope raw chunkSize = true ∧
        codec.splitLoop envelope raw segmentCount = codec.buildChunks envelope raw chunkSize := by
  fun_induction ServerCodec.splitLoop codec envelope raw segmentCount with
  | case1 segmentCount chunkSize hfit =>
    exact .inr ⟨chunkSize, Nat.lt_of_lt_of_le Nat.zero_lt_one (le_max_left _ _), hfit, rfl⟩
  | case2 segmentCount chunkSize hfit hone => exact .inl rfl
  | case3 segmentCount chunkSize hfit hone ih => exact ih

/-! ### Where the first round succeeds -/

/-- An envelope of a chunk of this message is at most so much longer than its payload. -/
def ServerCodec.OverheadAtMost (codec : ServerCodec) (envelope : ServerEnvelope) (size : ℕ)
    (overhead : ℕ) : Prop :=
  ∀ segmentId segmentCount chunk, segmentId < segmentCount → segmentCount ≤ segmentCountMax →
    ∃ len, codec.serializedLen
        (codec.chunkEnvelope envelope segmentCount size (chunk, segmentId)) = some len ∧
      len ≤ overhead + byteLen (codec.encode chunk)

/-- What is left of a websocket message beside a payload of the target size. -/
def overheadMax : ℕ := 17064

lemma overheadMax_add_le {length : ℕ} (h : length ≤ segmentTargetBytes) :
    overheadMax + 4 * (length ⌈/⌉ 3) ≤ segmentMaxBytes := by
  have hceil : length ⌈/⌉ 3 ≤ 34134 := by
    rw [ceilDiv_le_iff_le_mul (by decide)]
    unfold segmentTargetBytes at h
    omega
  unfold overheadMax segmentMaxBytes
  omega

lemma chunkSizeFor_first_le (size : ℕ) :
    chunkSizeFor size (max 2 (size ⌈/⌉ segmentTargetBytes)) ≤ segmentTargetBytes := by
  have hpos : 0 < max 2 (size ⌈/⌉ segmentTargetBytes) := by omega
  refine max_le (by decide) ?_
  rw [ceilDiv_le_iff_le_mul hpos]
  have hcover : size ≤ segmentTargetBytes * (size ⌈/⌉ segmentTargetBytes) :=
    (ceilDiv_le_iff_le_mul (by decide)).mp le_rfl
  rw [Nat.mul_comm]
  exact hcover.trans (Nat.mul_le_mul_left _ (le_max_right _ _))

/-- There are no more chunks than segments were asked for. -/
theorem ceilDiv_chunkSizeFor_le {size : ℕ} (h : 0 < segmentCount) :
    size ⌈/⌉ chunkSizeFor size segmentCount ≤ segmentCount := by
  have hpos : 0 < chunkSizeFor size segmentCount :=
    Nat.lt_of_lt_of_le Nat.zero_lt_one (le_max_left _ _)
  rw [ceilDiv_le_iff_le_mul hpos, Nat.mul_comm]
  have hcover : size ≤ segmentCount * (size ⌈/⌉ segmentCount) := (ceilDiv_le_iff_le_mul h).mp le_rfl
  exact hcover.trans (Nat.mul_le_mul_left _ (le_max_right _ _))

lemma first_le_segmentCountMax {size : ℕ} (h : size ≤ reassembledMaxBytes) :
    max 2 (size ⌈/⌉ segmentTargetBytes) ≤ segmentCountMax := by
  refine max_le (by decide) ?_
  rw [ceilDiv_le_iff_le_mul (by decide)]
  exact h

end search

/-! ### The round trip -/

/-- What base64 and JSON are documented to do. -/
structure ServerCodec.RoundTrips (server : ServerCodec) (client : Codec) : Prop where
  decode_encode : ∀ bytes, client.decode (server.encode bytes) = some bytes
  byteLen_encode : ∀ bytes, byteLen (server.encode bytes) = 4 * (bytes.length ⌈/⌉ 3)
  serializes : ∀ envelope, (server.serialize envelope).isSome
  serializesMessage : ∀ message, ∃ raw, server.serializeMessage message = some raw ∧ raw ≠ []

/-- The chunk of a server as one of a client. -/
def ServerEnvelope.asClientChunk (part : ServerEnvelope) : ClientEnvelope where
  event :=
    match part.event with
    | .serverMessageChunk segmentId segmentCount messageSizeBytes messageChunkBase64 =>
      .clientMessageChunk segmentId.val segmentCount messageSizeBytes messageChunkBase64
    | _ => .ping
  clientId := part.clientId
  streamId := some part.streamId
  seqId := some part.seqId

/-- The arrival of such chunks. -/
def feed (now : ServerEnvelope → ℕ) (rank : ServerEnvelope → ClientId → ℕ)
    (parts : List ServerEnvelope) : List Call :=
  parts.map fun part => .observe part.asClientChunk (now part) (rank part)

/-- A reassembler that holds nothing of the stream forwards the message with the last chunk. -/
def Reassembles (client : Codec) (parts : List ServerEnvelope) (message : JSONRPCMessage) : Prop :=
  ∀ calls init last now rank, parts = init ++ [last] →
    ¬ (run client calls).Holds last.clientId last.streamId →
    ((calls ++ feed now rank init).map Call.clientId).dedup.length < segmentAssemblyMaxCount →
    ((run client (calls ++ feed now rank init)).observe client last.asClientChunk (now last)
      (rank last)).1 =
      .forward { last.asClientChunk with event := .clientMessage message }

/-- The parts are the chunks `0..n-1` of the message, with the fields of its envelope. -/
structure IsSegmentation (client : Codec) (envelope : ServerEnvelope) (raw : List UInt8)
    (parts : List ServerEnvelope) : Prop where
  count_le : parts.length ≤ segmentCountMax
  decodes : ∃ (texts : List Text) (chunks : List (List UInt8)),
    texts.map client.decode = chunks.map some ∧ chunks.flatten = raw ∧
    parts = texts.zipIdx.map fun (text, segmentId) => { envelope with
      event := .serverMessageChunk (Fin.ofNat _ segmentId) parts.length raw.length text }
  reassembles : ∀ message, client.parse raw = some message → Reassembles client parts message

section roundTrip

variable {server : ServerCodec} {client : Codec} {envelope : ServerEnvelope} {raw : List UInt8}
  {parts : List ServerEnvelope} {chunkSize : ℕ}

lemma admits_encode (hcodec : server.RoundTrips client) {bytes : List UInt8} (h : bytes ≠ []) :
    client.Admits (server.encode bytes) := by
  have hlength := hcodec.byteLen_encode bytes
  rw [Nat.ceilDiv_eq_add_pred_div] at hlength
  have hpos := List.length_pos_iff.mpr h
  constructor
  · intro hnil
    rw [hnil] at hlength
    have hzero : byteLen [] = 0 := rfl
    omega
  · intro chunk hchunk
    obtain rfl := Option.some.inj ((hcodec.decode_encode bytes).symm.trans hchunk)
    rw [hlength, decodedLenEstimate]
    omega

/-- The key of the chunks of an envelope. -/
def ServerEnvelope.messageKey (envelope : ServerEnvelope) (segmentCount size : ℕ) : MessageKey :=
  ⟨envelope.clientId, envelope.streamId, ⟨envelope.seqId, segmentCount, size⟩⟩

lemma asClientChunk_chunkEnvelope {segmentCount size segmentId : ℕ} {chunk : List UInt8}
    (h : segmentId < segmentCountMax) :
    (server.chunkEnvelope envelope segmentCount size (chunk, segmentId)).asClientChunk =
      (envelope.messageKey segmentCount size).chunk segmentId (server.encode chunk) := by
  have hsmall : segmentId % 2 ^ 64 = segmentId := by
    unfold segmentCountMax at h
    omega
  simp only [ServerCodec.chunkEnvelope, ServerEnvelope.asClientChunk, MessageKey.chunk,
    ServerEnvelope.messageKey, Fin.val_ofNat, hsmall]

variable (hcodec : server.RoundTrips client)
include hcodec

lemma reassembles_chunks {chunks : List (List UInt8)}
    (hnonempty : ∀ chunk ∈ chunks, chunk ≠ []) (hcount : chunks.length ≤ segmentCountMax)
    (hraw : chunks.flatten = raw) (hmax : raw.length ≤ reassembledMaxBytes)
    {message : JSONRPCMessage} (hparse : client.parse raw = some message) :
    Reassembles client (chunks.zipIdx.map
      (server.chunkEnvelope envelope chunks.length raw.length)) message := by
  intro calls init last now rank hparts hholds hfew
  obtain rfl | ⟨cs, chunk, rfl⟩ := List.eq_nil_or_concat' chunks
  · exact absurd hparts (by simp)
  have hlength : (cs ++ [chunk]).length = cs.length + 1 := by simp
  rw [hlength] at hcount hparts
  -- the parts before the last one, and the last one
  rw [List.zipIdx_append, List.map_append] at hparts
  obtain ⟨rfl, hlast⟩ := List.append_inj' hparts rfl
  have hlast : server.chunkEnvelope envelope (cs.length + 1) raw.length (chunk, cs.length) =
      last := by
    simpa using hlast
  obtain rfl := hlast
  rw [asClientChunk_chunkEnvelope (by omega)]
  set key := envelope.messageKey (cs.length + 1) raw.length with hkey
  have hadmits : ∀ text ∈ cs.map server.encode ++ [server.encode chunk], client.Admits text := by
    rw [← List.map_singleton, ← List.map_append]
    intro text htext
    obtain ⟨c, hc, rfl⟩ := List.mem_map.mp htext
    exact admits_encode hcodec (hnonempty c hc)
  have hmessage : IsMessage client key.metadata (cs.map server.encode ++ [server.encode chunk])
      (cs ++ [chunk]) message := by
    refine ⟨by simp [hkey, ServerEnvelope.messageKey], hcount, ?_, hmax,
      fun text htext => (hadmits text htext).1, ?_, congrArg List.length hraw, ?_⟩
    · apply List.length_pos_iff.mpr
      rintro rfl
      rw [List.flatten_eq_nil_iff] at hraw
      exact hnonempty chunk (by simp) (hraw chunk (by simp))
    · rw [← List.map_singleton, ← List.map_append, List.map_map]
      exact List.map_congr_left fun c _ => hcodec.decode_encode c
    · rw [hraw]
      exact hparse
  have harrive : Arrive key (cs.map server.encode) (feed now rank (cs.zipIdx.map
      (server.chunkEnvelope envelope (cs.length + 1) raw.length))) := by
    have hown : ∀ call ∈ feed now rank (cs.zipIdx.map
        (server.chunkEnvelope envelope (cs.length + 1) raw.length)),
        decide (call.clientId = key.clientId) = true := by
      intro call hcall
      obtain ⟨part, hpart, rfl⟩ := List.mem_map.mp hcall
      obtain ⟨c, -, rfl⟩ := List.mem_map.mp hpart
      exact decide_eq_true rfl
    rw [Arrive, List.filter_eq_self.mpr hown, feed, List.map_map, List.map_map, List.zipIdx_map,
      List.map_map]
    apply List.map_congr_left
    rintro ⟨c, segmentId⟩ hc
    have hlt : segmentId < cs.length := by
      have := List.mem_zipIdx hc
      omega
    simp only [Function.comp, Call.envelope, Prod.map]
    rw [asClientChunk_chunkEnvelope (by omega)]
    rfl
  have hforward := forwarded_of_not_holds hmessage hadmits harrive hfew hholds
  rw [List.length_map] at hforward
  exact hforward _ _

lemma isSegmentation_chunks (hsize : 0 < chunkSize)
    (hcount : raw.length ⌈/⌉ chunkSize ≤ segmentCountMax)
    (hmax : raw.length ≤ reassembledMaxBytes) :
    IsSegmentation client envelope raw ((chunksOf chunkSize raw).zipIdx.map
      (server.chunkEnvelope envelope (raw.length ⌈/⌉ chunkSize) raw.length)) := by
  have hlength := length_chunksOf chunkSize raw
  refine ⟨?_, ⟨(chunksOf chunkSize raw).map server.encode, chunksOf chunkSize raw, ?_,
    flatten_chunksOf hsize raw, ?_⟩, fun message hparse => ?_⟩
  · rw [List.length_map, List.length_zipIdx, hlength]
    exact hcount
  · rw [List.map_map]
    exact List.map_congr_left fun chunk _ => hcodec.decode_encode chunk
  · rw [List.length_map, List.length_zipIdx, hlength, List.zipIdx_map, List.map_map]
    rfl
  · rw [← hlength] at hcount ⊢
    exact reassembles_chunks hcodec (fun chunk => ne_nil_of_mem_chunksOf hsize) hcount
      (flatten_chunksOf hsize raw) hmax hparse

/-- The first round finds chunks that fit, where nothing but the payload is long. -/
theorem segmentsFit_first (hmax : raw.length ≤ reassembledMaxBytes)
    (hoverhead : server.OverheadAtMost envelope raw.length overheadMax) :
    server.segmentsFit envelope raw
      (chunkSizeFor raw.length (max 2 (raw.length ⌈/⌉ segmentTargetBytes))) = true := by
  set segmentCount := max 2 (raw.length ⌈/⌉ segmentTargetBytes) with hsegmentCount
  have hpos : 0 < segmentCount := by omega
  have hcount : raw.length ⌈/⌉ chunkSizeFor raw.length segmentCount ≤ segmentCountMax :=
    (ceilDiv_chunkSizeFor_le hpos).trans (first_le_segmentCountMax hmax)
  refine segmentsFit_iff.mpr fun ⟨chunk, segmentId⟩ hchunk => ⟨hcount, ?_⟩
  have hmem := List.mem_zipIdx hchunk
  have hid : segmentId < raw.length ⌈/⌉ chunkSizeFor raw.length segmentCount := by
    rw [← length_chunksOf]
    omega
  have hshort : chunk.length ≤ segmentTargetBytes := by
    have hin : chunk ∈ chunksOf (chunkSizeFor raw.length segmentCount) raw :=
      List.fst_mem_of_mem_zipIdx hchunk
    exact (length_of_mem_chunksOf hin).trans (chunkSizeFor_first_le raw.length)
  obtain ⟨len, hlen, hle⟩ := hoverhead segmentId _ chunk hid hcount
  refine ⟨len, hlen, hle.trans ?_⟩
  rw [hcodec.byteLen_encode]
  exact overheadMax_add_le hshort

omit hcodec

/-- The split of a server message, with the lengths that it finds. -/
theorem split_eq {message : OutgoingMessage} {len minimalLen : ℕ}
    (hevent : envelope.event = .serverMessage message)
    (hlen : server.serializedLen envelope = some len)
    (hraw : server.serializeMessage message = some raw)
    (hminimal : server.serializedChunkLen envelope 0 (min (max raw.length 1) segmentCountMax)
      raw.length (raw.take 1) = some minimalLen) :
    server.splitServerEnvelopeForTransport envelope =
      if len ≤ segmentMaxBytes then some [envelope]
      else if raw.length > reassembledMaxBytes then some []
      else if minimalLen > segmentMaxBytes then some []
      else server.splitLoop envelope raw (max 2 (raw.length ⌈/⌉ segmentTargetBytes)) := by
  unfold ServerCodec.splitServerEnvelopeForTransport
  rw [hevent]
  simp only [hlen, hraw, hminimal, Option.bind_eq_bind, Option.bind_some, Option.pure_def]

variable (hcodec : server.RoundTrips client)
include hcodec

lemma exists_split_eq {message : OutgoingMessage} (hevent : envelope.event = .serverMessage message)
    (hraw : server.serializeMessage message = some raw) :
    ∃ len minimalLen, server.serializedLen envelope = some len ∧
      server.serializedLen (server.chunkEnvelope envelope (min (max raw.length 1) segmentCountMax)
        raw.length (raw.take 1, 0)) = some minimalLen ∧
      server.splitServerEnvelopeForTransport envelope =
        if len ≤ segmentMaxBytes then some [envelope]
        else if raw.length > reassembledMaxBytes then some []
        else if minimalLen > segmentMaxBytes then some []
        else server.splitLoop envelope raw (max 2 (raw.length ⌈/⌉ segmentTargetBytes)) := by
  have hserializes : ∀ part, ∃ len, server.serializedLen part = some len := by
    intro part
    obtain ⟨text, htext⟩ := Option.isSome_iff_exists.mp (hcodec.serializes part)
    exact ⟨byteLen text, by rw [ServerCodec.serializedLen, htext, Option.map_some]⟩
  obtain ⟨len, hlen⟩ := hserializes envelope
  obtain ⟨minimalLen, hminimal⟩ := hserializes (server.chunkEnvelope envelope
    (min (max raw.length 1) segmentCountMax) raw.length (raw.take 1, 0))
  refine ⟨len, minimalLen, hlen, hminimal, split_eq hevent hlen hraw ?_⟩
  exact serializedChunkLen_eq_some.mpr ⟨min_le_right _ _, hminimal⟩

lemma splitLoop_segmentation (hmax : raw.length ≤ reassembledMaxBytes) (segmentCount : ℕ) :
    ∃ parts, server.splitLoop envelope raw segmentCount = some parts ∧
      (∀ part ∈ parts, server.Fits part) ∧
      (parts = [] ∨ IsSegmentation client envelope raw parts) := by
  rcases splitLoop_cases server envelope raw segmentCount with
    hnone | ⟨chunkSize, hsize, hfit, hbuild⟩
  · exact ⟨[], hnone, fun part hpart => absurd hpart List.not_mem_nil, .inl rfl⟩
  · obtain ⟨hcount, hparts⟩ := buildChunks_of_segmentsFit hfit
    refine ⟨_, hbuild.trans hparts, ?_, .inr (isSegmentation_chunks hcodec hsize hcount hmax)⟩
    intro part hpart
    obtain ⟨chunk, hchunk, rfl⟩ := List.mem_map.mp hpart
    exact (segmentsFit_iff.mp hfit chunk hchunk).2

/-- The loop finds chunks in its first round, where nothing but the payload is long. -/
theorem splitLoop_ne_nil (hraw : raw ≠ []) (hmax : raw.length ≤ reassembledMaxBytes)
    (hoverhead : server.OverheadAtMost envelope raw.length overheadMax) :
    server.splitLoop envelope raw (max 2 (raw.length ⌈/⌉ segmentTargetBytes)) ≠ some [] := by
  have hfit := segmentsFit_first hcodec hmax hoverhead
  have hpos : 0 < chunkSizeFor raw.length (max 2 (raw.length ⌈/⌉ segmentTargetBytes)) :=
    Nat.lt_of_lt_of_le Nat.zero_lt_one (le_max_left _ _)
  rw [ServerCodec.splitLoop, if_pos hfit, (buildChunks_of_segmentsFit hfit).2]
  intro hnil
  have hempty := List.map_eq_nil_iff.mp (Option.some.inj hnil)
  rw [List.zipIdx_eq_nil_iff] at hempty
  have hflatten := flatten_chunksOf hpos raw
  rw [hempty] at hflatten
  exact hraw hflatten.symm

end roundTrip

/-- **Splitting is lossless and bounded, and drops no message that fits.** -/
theorem split_lossless {server : ServerCodec} {client : Codec} (hcodec : server.RoundTrips client)
    {envelope : ServerEnvelope} {message : OutgoingMessage}
    (hevent : envelope.event = .serverMessage message) :
    ∃ raw parts, server.serializeMessage message = some raw ∧
      server.splitServerEnvelopeForTransport envelope = some parts ∧
      (∀ part ∈ parts, server.Fits part) ∧
      (parts = [] ∨ parts = [envelope] ∨ IsSegmentation client envelope raw parts) ∧
      (raw.length ≤ reassembledMaxBytes →
        server.OverheadAtMost envelope raw.length overheadMax → parts ≠ []) := by
  obtain ⟨raw, hraw, hnonempty⟩ := hcodec.serializesMessage message
  obtain ⟨len, minimalLen, hlen, hminimal, hsplit⟩ := exists_split_eq hcodec hevent hraw
  have hnothing : ∀ part ∈ ([] : List ServerEnvelope), server.Fits part :=
    fun part hpart => absurd hpart List.not_mem_nil
  rw [hsplit]
  refine ⟨raw, ?_⟩
  split_ifs with hshort hlong hminimalLong
  · refine ⟨[envelope], hraw, rfl, ?_, .inr (.inl rfl), fun _ _ => List.cons_ne_nil _ _⟩
    intro part hpart
    rw [List.mem_singleton.mp hpart]
    exact ⟨len, hlen, hshort⟩
  · exact ⟨[], hraw, rfl, hnothing, .inl rfl, fun hmax => absurd hlong (not_lt.mpr hmax)⟩
  · refine ⟨[], hraw, rfl, hnothing, .inl rfl, fun hmax hoverhead => ?_⟩
    -- the envelope of one byte fits, since its overhead does
    have hpos := List.length_pos_iff.mpr hnonempty
    have hcount : 0 < min (max raw.length 1) segmentCountMax := by
      unfold segmentCountMax
      omega
    obtain ⟨len', hlen', hle⟩ := hoverhead 0 _ (raw.take 1) hcount (min_le_right _ _)
    obtain rfl := Option.some.inj (hminimal.symm.trans hlen')
    have hbyte : (raw.take 1).length ≤ segmentTargetBytes :=
      (List.length_take_le 1 raw).trans (by decide)
    rw [hcodec.byteLen_encode] at hle
    exact absurd (hle.trans (overheadMax_add_le hbyte)) (not_le.mpr hminimalLong)
  · obtain ⟨parts, hparts, hfits, hends⟩ :=
      splitLoop_segmentation hcodec (not_lt.mp hlong) (max 2 (raw.length ⌈/⌉ segmentTargetBytes))
    refine ⟨parts, hraw, hparts, hfits, hends.imp_right .inr, fun hmax hoverhead hnil => ?_⟩
    rw [hnil] at hparts
    exact splitLoop_ne_nil hcodec hnonempty hmax hoverhead hparts

/-! ### Base64 and JSON -/

lemma byteLen_base64 (bytes : List UInt8) :
    byteLen (Base64.encode bytes) = 4 * (bytes.length ⌈/⌉ 3) := by
  have hone : ∀ c ∈ Base64.padding :: Base64.alphabet, c.utf8Size = 1 := by decide +kernel
  rw [← Base64.length_encode, byteLen, List.map_congr_left fun c hc =>
    hone c (Base64.mem_of_mem_encode hc), List.map_const', List.sum_replicate, smul_eq_mul, mul_one]

/-- The JSON of an event, without the braces. -/
def eventJson : ServerEvent → String
  | .serverMessage message => "\"type\":\"server_message\",\"message\":\x7b" ++
      String.ofList message ++ "\x7d"
  | .serverMessageChunk segmentId segmentCount messageSizeBytes messageChunkBase64 =>
    "\"type\":\"server_message_chunk\",\"segment_id\":" ++ toString segmentId.val ++
      ",\"segment_count\":" ++ toString segmentCount ++ ",\"message_size_bytes\":" ++
      toString messageSizeBytes ++ ",\"message_chunk_base64\":\"" ++
      String.ofList messageChunkBase64 ++ "\""
  | .ack => "\"type\":\"ack\""
  | .pong .active => "\"type\":\"pong\",\"status\":\"active\""
  | .pong .unknown => "\"type\":\"pong\",\"status\":\"unknown\""

/-- JSON for ids and messages without characters that are escaped; a message is what stands between
its braces. -/
def plainServerCodec : ServerCodec where
  serialize envelope := some <| "\x7b".toList ++ (eventJson envelope.event).toList ++
    ",\"client_id\":\"".toList ++ envelope.clientId ++ "\",\"stream_id\":\"".toList ++
    envelope.streamId ++ "\",\"seq_id\":".toList ++ (toString envelope.seqId).toList ++
    "\x7d".toList
  serializeMessage message := some (asciiBytes ('\x7b' :: message ++ ['\x7d']))
  encode := Base64.encode

/-- Base64, and the notification `initialized`. -/
def plainClientCodec : Codec where
  decode := Base64.decode
  parse := initializedCodec.parse

lemma plainServerCodec_roundTrips : plainServerCodec.RoundTrips plainClientCodec where
  decode_encode := Base64.decode_encode
  byteLen_encode := byteLen_base64
  serializes _ := rfl
  serializesMessage _ := ⟨_, rfl, List.cons_ne_nil _ _⟩

lemma byteLen_append (s t : Text) : byteLen (s ++ t) = byteLen s + byteLen t := by
  rw [byteLen, List.map_append, List.sum_append, byteLen, byteLen]

lemma byteLen_toString_le {n k : ℕ} (hk : 0 < k) (h : n < 10 ^ k) :
    byteLen (toString n).toList ≤ 4 * k := by
  have hlength : (toString n).toList.length ≤ k := (Nat.length_repr_le_iff hk).mpr h
  have hsizes : ∀ size ∈ (toString n).toList.map Char.utf8Size, size ≤ 4 := by
    intro size hsize
    obtain ⟨c, -, rfl⟩ := List.mem_map.mp hsize
    exact c.utf8Size_le_four
  have hsum := List.sum_le_card_nsmul _ 4 hsizes
  rw [List.length_map, smul_eq_mul] at hsum
  exact hsum.trans (by omega)

lemma eventJson_chunk (segmentId : Usize) (segmentCount messageSizeBytes : ℕ) (chunk : Text) :
    eventJson (.serverMessageChunk segmentId segmentCount messageSizeBytes chunk) =
      "\"type\":\"server_message_chunk\",\"segment_id\":" ++ toString segmentId.val ++
        ",\"segment_count\":" ++ toString segmentCount ++ ",\"message_size_bytes\":" ++
        toString messageSizeBytes ++ ",\"message_chunk_base64\":\"" ++ String.ofList chunk ++
        "\"" :=
  rfl

/-- Beside its payload the envelope of a chunk holds a few names, ids and numbers. -/
lemma overheadAtMost_plain (message : OutgoingMessage) {size : ℕ} (hsize : size < 10 ^ 9) :
    plainServerCodec.OverheadAtMost ⟨.serverMessage message, "c".toList, "s".toList, 9⟩ size
      overheadMax := by
  intro segmentId segmentCount chunk hid hcount
  rw [segmentCountMax] at hcount
  have hsegmentId := byteLen_toString_le (n := segmentId) (k := 4) (by decide) (by omega)
  have hsegmentCount := byteLen_toString_le (n := segmentCount) (k := 4) (by decide) (by omega)
  have hsizeLen := byteLen_toString_le (n := size) (k := 9) (by decide) hsize
  have hval : (Fin.ofNat (2 ^ 64) segmentId).val = segmentId := Nat.mod_eq_of_lt (by omega)
  simp only [ServerCodec.serializedLen, plainServerCodec, ServerCodec.chunkEnvelope,
    Option.map_some, eventJson_chunk, hval, String.toList_append, String.toList_ofList,
    byteLen_append]
  refine ⟨_, rfl, ?_⟩
  have hname : ∀ name ∈ ["\x7b", "\"type\":\"server_message_chunk\",\"segment_id\":",
      ",\"segment_count\":", ",\"message_size_bytes\":", ",\"message_chunk_base64\":\"", "\"",
      ",\"client_id\":\"", "c", "\",\"stream_id\":\"", "s", "\",\"seq_id\":", toString 9, "\x7d"],
      byteLen name.toList ≤ 100 := by decide +kernel
  simp only [List.forall_mem_cons] at hname
  rw [overheadMax]
  omega

lemma byteLen_le_serializedLen {message : OutgoingMessage} {envelope : ServerEnvelope} {len : ℕ}
    (hevent : envelope.event = .serverMessage message)
    (hlen : plainServerCodec.serializedLen envelope = some len) : byteLen message ≤ len := by
  have hjson : eventJson (.serverMessage message) =
      "\"type\":\"server_message\",\"message\":\x7b" ++ String.ofList message ++ "\x7d" := rfl
  simp only [ServerCodec.serializedLen, plainServerCodec, Option.map_some, Option.some.injEq,
    hevent, hjson, String.toList_append, String.toList_ofList, byteLen_append] at hlen
  omega

/-- A server message of 160 KiB. -/
def longEnvelope : ServerEnvelope :=
  ⟨.serverMessage (List.replicate (160 * 1024) 'a'), "c".toList, "s".toList, 9⟩

/-- The message does not fit into one websocket message, so it is sent in chunks, which are put
together again. -/
theorem split_lossless_longEnvelope : ∃ raw parts,
    plainServerCodec.splitServerEnvelopeForTransport longEnvelope = some parts ∧ parts ≠ [] ∧
      IsSegmentation plainClientCodec longEnvelope raw parts := by
  obtain ⟨raw, parts, hraw, hsplit, hfits, hends, hnonempty⟩ :=
    split_lossless plainServerCodec_roundTrips (show longEnvelope.event = .serverMessage _ from rfl)
  have hlength : raw.length = 160 * 1024 + 2 := by
    rw [← Option.some.inj hraw, asciiBytes, List.length_map, List.length_append, List.length_cons,
      List.length_replicate]
    rfl
  have hparts : parts ≠ [] := by
    apply hnonempty
    · rw [hlength]
      decide
    · rw [hlength]
      exact overheadAtMost_plain _ (by decide)
  refine ⟨raw, parts, hsplit, hparts, ?_⟩
  rcases hends with hnil | hwhole | hsegments
  · exact absurd hnil hparts
  · rw [hwhole] at hfits
    obtain ⟨len, hlen, hle⟩ := hfits longEnvelope (List.mem_singleton_self _)
    have hbytes := byteLen_le_serializedLen rfl hlen
    rw [byteLen, List.map_replicate, List.sum_replicate] at hbytes
    exact absurd (hbytes.trans hle) (by decide)
  · exact hsegments

end Codex.RemoteControl
